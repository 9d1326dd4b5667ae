import OS161.Process
import OS161.Resolve
import OS161.Transition

/-!
# The menu waits for a program

`common_prog` forks a thread that runs the program and calls `proc_wait`, which waits on
`p_sem`, reads the exit status and destroys the process. The thread leaves through `sys__exit`,
called by the program or by `vm_fault` when it kills the process, which stores the status,
detaches the thread and posts the semaphore; or, when `runprogram` returns an error, by
returning to `thread_startup`, which calls `thread_exit`.

`Life` is the process with its thread and the menu, either of which may run at any time. On the
second way out nothing posts the semaphore : the menu is served in every state exactly if
`runprogram` returns no error (`served_iff`).
-/

namespace OS161

variable {σ : Type}

/-! ## State -/

/-- Where the thread of the program is : before `runprogram`; on its way out of `cmd_progthread`
after an error; in user mode; before each of the three steps of `sys__exit`; before `thread_exit`;
gone. -/
inductive ThreadAt
  | start
  | failed
  | user
  | exiting (status : BitVec 32)
  | detaching
  | posting
  | leaving
  | zombie
  deriving DecidableEq, Repr

/-- Where the menu is in `proc_wait` : in `P`; before it reads the status; before `proc_destroy`;
returned with the status. -/
inductive WaiterAt
  | waiting
  | awake
  | destroying (status : BitVec 32)
  | returned (status : BitVec 32)
  deriving DecidableEq, Repr

/-- A process, its thread and the menu. `sem` is the count of `p_sem`, `attached` says whether
`t_proc` of the thread is set. For the record, `exits` are the arguments of the calls of
`sys__exit`, and `posts` says for each `V` whether the thread was attached. -/
structure Life where
  proc : ProcStruct
  held : List Block
  sem : ℕ
  attached : Bool
  thread : ThreadAt
  waiter : WaiterAt
  exits : List (BitVec 32)
  posts : List Bool

/-- The next step of the thread; a call of `sys__exit` by the program; a fault of the program,
with the kernel in state `k`; the next step of the menu. -/
inductive LifeOp
  | thread
  | exit (status : BitVec 32)
  | fault (k : Kernel) (faulttype : FaultType) (faultaddress : ℕ)
  | wait

namespace Life

/-- `thread_fork` has returned. -/
def start (l : Launch σ) : Life where
  proc := { (procCreateRunprogram l).1 with pNumthreads := 1 }
  held := (procCreateRunprogram l).2
  sem := 0
  attached := true
  thread := .start
  waiter := .waiting
  exits := []
  posts := []

/-! ## Steps -/

/-- `proc_remthread`. -/
def procRemthread (s : Life) : Except Misuse Life := do
  halting (kassert s.attached "proc != NULL")
  halting (kassert (0 < s.proc.pNumthreads) "proc->p_numthreads > 0")
  .ok { s with
    proc := { s.proc with pNumthreads := s.proc.pNumthreads - 1 }
    attached := false }

/-- `thread_exit`. -/
def threadExit (s : Life) : Except Misuse Life :=
  if s.attached then do
    let s ← s.procRemthread
    .ok { s with thread := .zombie }
  else .ok { s with thread := .zombie }

/-- The program's thread calls `sys__exit`. -/
def callExit (s : Life) (status : BitVec 32) : Life :=
  { s with thread := .exiting status, exits := status :: s.exits }

/-- The next step of the thread. -/
def threadStep (l : Launch σ) (s : Life) : Except Misuse Life :=
  match s.thread with
  | .start => do
    let (err, p, held) ← runprogram l s.proc s.held
    let thread := match err with
      | some _ => ThreadAt.failed
      | none => .user
    .ok { s with proc := p, held := held, thread := thread }
  | .failed | .leaving => s.threadExit
  | .exiting status =>
    .ok { s with
      proc := { s.proc with status := .set (status &&& 0xff) }
      thread := .detaching }
  | .detaching => do
    let s ← s.procRemthread
    .ok { s with thread := .posting }
  | .posting => do
    halting (kassert s.proc.pSem "sem != NULL")
    .ok { s with sem := s.sem + 1, posts := s.attached :: s.posts, thread := .leaving }
  | .user | .zombie => .ok s

/-- The next step of `proc_wait`. -/
def waitStep (s : Life) : Except Misuse Life :=
  match s.waiter with
  | .waiting => do
    halting (kassert s.proc.pSem "sem != NULL")
    .ok { s with sem := s.sem - 1, waiter := .awake }
  | .awake =>
    match s.proc.status with
    | .uninit => .error .uninitialised
    | .set status => .ok { s with waiter := .destroying status }
  | .destroying status => do
    let held ← procDestroy s.proc s.held
    .ok { s with held := held, waiter := .returned status }
  | .returned _ => .ok s

/-- The thread can take its next step by itself. -/
def ThreadReady (s : Life) : Prop :=
  s.thread ≠ .user ∧ s.thread ≠ .zombie

/-- `P` returns when the count is positive. -/
def WaiterReady (s : Life) : Prop :=
  match s.waiter with
  | .waiting => 0 < s.sem
  | .returned _ => False
  | _ => True

/-- Which steps are ready. -/
def Allowed (s : Life) : LifeOp → Prop
  | .thread => s.ThreadReady
  | .exit _ => s.thread = .user
  | .fault _ _ _ => s.thread = .user
  | .wait => s.WaiterReady

/-- Run an operation. A fault that `vm_fault` reports back ends in `kill_curthread`, which
panics. -/
def exec (l : Launch σ) (s : Life) : LifeOp → Except Misuse Life
  | .thread => s.threadStep l
  | .exit status => .ok (s.callExit status)
  | .fault k faulttype faultaddress => do
    match ← halting (vmFault k faulttype faultaddress) with
    | (.ret none, _) => .ok s
    | (.ret (some _), _) => .error (.halt (.panic "I don't know how to handle this\n"))
    | (.exit status, _) => .ok (s.callExit (BitVec.ofInt 32 status))
  | .wait => s.waitStep

/-- One step of the thread or of the menu that does not go wrong. -/
def Step (l : Launch σ) (s : Life) (op : LifeOp) (s' : Life) : Prop :=
  s.Allowed op ∧ s.exec l op = .ok s'

/-! ## What the menu relies on -/

/-- The menu is served : when the thread is gone, `p_sem` has been posted once, after the thread
was detached, so that the menu is past `P` or can get past it; the status it reads is that of the
one exit; and no thread is left when the process is destroyed. -/
structure Served (s : Life) : Prop where
  posted : s.thread = .zombie → s.posts = [false]
  wakes : s.thread = .zombie → s.waiter = .waiting → s.WaiterReady
  status : ∀ v, s.waiter = .destroying v ∨ s.waiter = .returned v →
    ∃ status, s.exits = [status] ∧ v = status &&& 0xff
  alone : ∀ v, s.waiter = .destroying v → s.proc.pNumthreads = 0

end Life

/-- `runprogram` returns an error : `vfs_open` does, there is no memory for the address space, or
`load_elf` returns one. -/
def Launch.Fails (l : Launch σ) : Prop :=
  (∃ e, l.opened = .error e) ∨ ∃ v, l.opened = .ok v ∧
    (l.asCreated = false ∨
      ∃ e as heap, loadElf l.kmalloc v asCreate l.heap = .ok (.error e, as, heap))

theorem fails_of_runprogram {l : Launch σ} {p p' : ProcStruct} {held held' : List Block} {e : Errno}
    (h : runprogram l p held = .ok (some e, p', held')) : l.Fails := by
  unfold runprogram at h
  cases hopen : l.opened with
  | error e' => exact Or.inl ⟨e', hopen⟩
  | ok v =>
    rw [hopen] at h
    refine Or.inr ⟨v, hopen, ?_⟩
    obtain ⟨u, -, h⟩ := bind_eq_ok.mp h
    split_ifs at h with has
    · exact Or.inl has
    · obtain ⟨⟨result, as, heap⟩, hload, h⟩ := bind_eq_ok.mp h
      cases result with
      | error e' => exact Or.inr ⟨e', as, heap, halting_eq_ok.mp hload⟩
      | ok entrypoint =>
        obtain ⟨⟨as₁, sp, heap₁⟩, -, h⟩ := bind_eq_ok.mp h
        obtain ⟨⟨as₂, heap₂⟩, -, h⟩ := bind_eq_ok.mp h
        cases h

/-- An error of `runprogram` reaches `cmd_progthread`. -/
theorem runprogram_of_fails {l : Launch σ} {p : ProcStruct} (hp : p.pAddrspace = none)
    (held : List Block) (h : l.Fails) :
    ∃ e p' held', runprogram l p held = .ok (some e, p', held') ∧
      p'.pNumthreads = p.pNumthreads := by
  have hrelease : ∀ pre : List Block,
      ∃ held', release .vnode (pre ++ .vnode :: held) = .ok held' := by
    intro pre
    exact ⟨_, if_pos (by simp)⟩
  unfold runprogram
  rcases h with ⟨e, hopen⟩ | ⟨v, hopen, hfail⟩
  · rw [hopen]
    exact ⟨e, p, held, rfl, rfl⟩
  · rw [hopen]
    dsimp only
    rw [kassert_pos hp, halting_ok, ok_bind]
    by_cases has : l.asCreated = false
    · obtain ⟨held', hrel⟩ := hrelease []
      rw [if_pos has, show release .vnode (.vnode :: held) = .ok held' from hrel, ok_bind]
      exact ⟨_, p, held', rfl, rfl⟩
    · obtain ⟨e, as, heap, hload⟩ := hfail.resolve_left has
      obtain ⟨held', hrel⟩ := hrelease (as.blocks ++ [.addrspace])
      rw [List.append_assoc] at hrel
      rw [if_neg has, hload, halting_ok, ok_bind]
      dsimp only
      rw [show release .vnode (as.blocks ++ .addrspace :: .vnode :: held) = .ok held' from hrel,
        ok_bind]
      exact ⟨e, _, held', rfl, rfl⟩

namespace Life

/-! ## The invariant -/

/-- Nobody has posted, and the menu waits. -/
structure Idle (s : Life) : Prop where
  posts : s.posts = []
  sem : s.sem = 0
  waiter : s.waiter = .waiting

/-- Where the menu can be once the semaphore has been posted, with `v` for a status. -/
def WaiterOk (s : Life) (v : BitVec 32) : Prop :=
  match s.waiter with
  | .waiting => s.sem = 1
  | .awake => True
  | .destroying w => w = v
  | .returned w => w = v

/-- The thread has stored the status of its one exit. -/
def Exited (s : Life) (status : BitVec 32) : Prop :=
  s.exits = [status] ∧ s.proc.status = .set (status &&& 0xff)

/-- The thread is attached until it has called `sys__exit` and stored the status; it posts
afterwards. -/
def Inv (s : Life) : Prop :=
  match s.thread with
  | .start | .user => s.Idle ∧ s.attached = true ∧ s.proc.pNumthreads = 1 ∧ s.exits = []
  | .failed => False
  | .exiting status => s.Idle ∧ s.attached = true ∧ s.proc.pNumthreads = 1 ∧ s.exits = [status]
  | .detaching => s.Idle ∧ s.attached = true ∧ s.proc.pNumthreads = 1 ∧ ∃ st, s.Exited st
  | .posting => s.Idle ∧ s.attached = false ∧ s.proc.pNumthreads = 0 ∧ ∃ st, s.Exited st
  | .leaving | .zombie => s.posts = [false] ∧ s.attached = false ∧ s.proc.pNumthreads = 0 ∧
      ∃ st, s.Exited st ∧ s.WaiterOk (st &&& 0xff)

variable {l : Launch σ} {s s' : Life}

theorem Inv.served (h : s.Inv) : s.Served := by
  have hidle : s.Idle → s.thread ≠ .zombie → s.Served := by
    intro hi ht
    refine ⟨fun hz => absurd hz ht, fun hz => absurd hz ht, fun v hv => ?_, fun v hv => ?_⟩
    · rw [hi.waiter] at hv
      rcases hv with hv | hv <;> cases hv
    · rw [hi.waiter] at hv
      cases hv
  have hposted : s.posts = [false] → s.proc.pNumthreads = 0 → (∃ st, s.Exited st ∧
      s.WaiterOk (st &&& 0xff)) → s.Served := by
    rintro hp hn ⟨st, hst, hw⟩
    refine ⟨fun _ => hp, fun _ hwait => ?_, fun v hv => ⟨st, hst.1, ?_⟩, fun _ _ => hn⟩
    · unfold WaiterOk at hw
      unfold WaiterReady
      rw [hwait] at hw ⊢
      exact hw.symm ▸ Nat.one_pos
    · unfold WaiterOk at hw
      rcases hv with hv | hv <;> rw [hv] at hw <;> exact hw
  unfold Inv at h
  cases ht : s.thread with
  | failed =>
    rw [ht] at h
    exact h.elim
  | leaving | zombie =>
    rw [ht] at h
    exact hposted h.1 h.2.2.1 h.2.2.2
  | _ =>
    rw [ht] at h
    exact hidle h.1 (by simp [ht])

theorem procRemthread_eq (ha : s.attached = true) (hn : s.proc.pNumthreads = 1) :
    s.procRemthread = .ok { s with
      proc := { s.proc with pNumthreads := 0 }
      attached := false } := by
  rw [procRemthread, kassert_pos ha, halting_ok, ok_bind, kassert_pos (by omega), halting_ok,
    ok_bind, hn]

theorem threadExit_attached (ha : s.attached = true) (hn : s.proc.pNumthreads = 1) :
    s.threadExit = .ok { s with
      proc := { s.proc with pNumthreads := 0 }
      attached := false
      thread := .zombie } := by
  rw [threadExit, if_pos ha, procRemthread_eq ha hn, ok_bind]

/-- A step of the thread. -/
theorem threadStep_inv (hl : ¬l.Fails) (h : s.Inv) (he : s.threadStep l = .ok s') : s'.Inv := by
  unfold Inv at h
  unfold threadStep at he
  cases ht : s.thread with
  | start =>
    rw [ht] at h he
    obtain ⟨hi, ha, hn, hx⟩ := h
    obtain ⟨⟨err, p, held⟩, hrun, he⟩ := bind_eq_ok.mp he
    cases err with
    | some e => exact absurd (fails_of_runprogram hrun) hl
    | none =>
      cases he
      rcases runprogram_spec hrun with ⟨herr, -⟩ | ⟨-, v, t, d, st, n, rfl, -⟩
      · cases herr
      · exact ⟨⟨hi.posts, hi.sem, hi.waiter⟩, ha, hn, hx⟩
  | failed =>
    rw [ht] at h
    exact h.elim
  | user =>
    rw [ht] at h he
    cases he
    unfold Inv
    rw [ht]
    exact h
  | exiting status =>
    rw [ht] at h he
    cases he
    obtain ⟨hi, ha, hn, hx⟩ := h
    exact ⟨⟨hi.posts, hi.sem, hi.waiter⟩, ha, hn, status, hx, rfl⟩
  | detaching =>
    rw [ht] at h he
    obtain ⟨hi, ha, hn, st, hst⟩ := h
    rw [procRemthread_eq ha hn, ok_bind] at he
    cases he
    exact ⟨⟨hi.posts, hi.sem, hi.waiter⟩, rfl, rfl, st, hst⟩
  | posting =>
    rw [ht] at h he
    obtain ⟨hi, ha, hn, st, hst⟩ := h
    obtain ⟨u, -, he⟩ := bind_eq_ok.mp he
    cases he
    refine ⟨?_, ha, hn, st, hst, ?_⟩
    · rw [hi.posts, ha]
    · unfold WaiterOk
      rw [hi.waiter, hi.sem]
  | leaving =>
    rw [ht] at h he
    obtain ⟨hp, ha, hn, hst⟩ := h
    rw [threadExit, if_neg (by simp [ha])] at he
    cases he
    exact ⟨hp, ha, hn, hst⟩
  | zombie =>
    rw [ht] at h he
    cases he
    unfold Inv
    rw [ht]
    exact h

/-- A step of the menu, which can only be made after the semaphore was posted. -/
theorem waitStep_inv (h : s.Inv) (hw : s.WaiterReady) (he : s.waitStep = .ok s') : s'.Inv := by
  have hidle : ¬s.Idle := by
    rintro ⟨-, hsem, hwait⟩
    unfold WaiterReady at hw
    rw [hwait, hsem] at hw
    exact absurd hw (Nat.lt_irrefl 0)
  -- Only the count, the blocks and the place of the menu change.
  have hposted : ∀ {st : BitVec 32}, s.Exited st → s.WaiterOk (st &&& 0xff) →
      s'.Exited st ∧ s'.WaiterOk (st &&& 0xff) ∧ s'.thread = s.thread ∧ s'.posts = s.posts ∧
        s'.attached = s.attached ∧ s'.proc = s.proc := by
    intro st hst hok
    unfold waitStep at he
    unfold WaiterOk at hok
    cases hwait : s.waiter with
    | waiting =>
      rw [hwait] at he
      obtain ⟨u, -, he⟩ := bind_eq_ok.mp he
      cases he
      exact ⟨hst, trivial, rfl, rfl, rfl, rfl⟩
    | awake =>
      rw [hwait] at he
      rw [hst.2] at he
      cases he
      exact ⟨hst, rfl, rfl, rfl, rfl, rfl⟩
    | destroying v =>
      rw [hwait] at he hok
      obtain ⟨held, -, he⟩ := bind_eq_ok.mp he
      cases he
      exact ⟨hst, hok, rfl, rfl, rfl, rfl⟩
    | returned v =>
      unfold WaiterReady at hw
      rw [hwait] at hw
      exact hw.elim
  unfold Inv at h
  cases ht : s.thread with
  | failed =>
    rw [ht] at h
    exact h.elim
  | leaving | zombie =>
    rw [ht] at h
    obtain ⟨hp, ha, hn, st, hst, hok⟩ := h
    obtain ⟨hst', hok', ht', hp', ha', hproc⟩ := hposted hst hok
    unfold Inv
    rw [ht', ht]
    exact ⟨hp'.trans hp, ha'.trans ha, by rw [hproc, hn], st, hst', hok'⟩
  | _ =>
    rw [ht] at h
    exact absurd h.1 hidle

theorem callExit_inv (h : s.Inv) (ht : s.thread = .user) (status : BitVec 32) :
    (s.callExit status).Inv := by
  unfold Inv at h
  rw [ht] at h
  obtain ⟨hi, ha, hn, hx⟩ := h
  exact ⟨⟨hi.posts, hi.sem, hi.waiter⟩, ha, hn, by rw [callExit, hx]⟩

theorem step_inv {op : LifeOp} (hl : ¬l.Fails) (h : s.Inv) (hs : s.Step l op s') : s'.Inv := by
  obtain ⟨hal, he⟩ := hs
  cases op with
  | thread => exact threadStep_inv hl h he
  | exit status =>
    cases he
    exact callExit_inv h hal status
  | fault k ty va =>
    obtain ⟨⟨r, k'⟩, -, he⟩ := bind_eq_ok.mp he
    match r with
    | .ret none =>
      cases he
      exact h
    | .ret (some e) => cases he
    | .exit status =>
      cases he
      exact callExit_inv h hal _
  | wait => exact waitStep_inv h hal he

theorem start_inv (l : Launch σ) : (start l).Inv :=
  ⟨⟨rfl, rfl, rfl⟩, rfl, rfl, rfl⟩

theorem run_inv {tr : List LifeOp} (hl : ¬l.Fails) (hr : Run (Step l) (start l) tr s) : s.Inv :=
  hr.invariant (start_inv l) fun _ _ _ hi hs => step_inv hl hi hs

/-- After an error of `runprogram` the thread leaves without a post. -/
theorem run_failed (hl : l.Fails) :
    ∃ s, Run (Step l) (start l) [.thread, .thread] s ∧ s.thread = .zombie ∧ s.posts = [] ∧
      s.sem = 0 ∧ s.waiter = .waiting := by
  obtain ⟨e, p, held, hrun, hn⟩ :=
    runprogram_of_fails (p := (start l).proc) rfl (start l).held hl
  have hfirst : (start l).threadStep l =
      .ok { start l with proc := p, held := held, thread := .failed } := by
    unfold threadStep
    dsimp only [start] at hrun ⊢
    rw [hrun, ok_bind]
  have hsecond : threadStep l { start l with proc := p, held := held, thread := .failed } = _ :=
    threadExit_attached rfl hn
  exact ⟨_, (Run.start.snoc ⟨⟨nofun, nofun⟩, hfirst⟩).snoc ⟨⟨nofun, nofun⟩, hsecond⟩, rfl, rfl, rfl,
    rfl⟩

end Life

/-- For every start of a program from the menu, whatever the program does and however its thread
and the menu are interleaved : the menu is served in every state exactly if `runprogram` returns
no error. -/
theorem served_iff (l : Launch σ) :
    (∀ tr s, Run (Life.Step l) (Life.start l) tr s → s.Served) ↔ ¬l.Fails := by
  constructor
  · intro h hl
    obtain ⟨s, hr, hz, hp, -⟩ := Life.run_failed hl
    have := (h _ s hr).posted hz
    rw [hp] at this
    cases this
  · intro hl tr s hr
    exact (Life.run_inv hl hr).served

/-- `vfs_open` finds no program. The thread is gone, the menu waits, and nothing can happen any
more. -/
theorem menu_stranded_small : ∃ s, Run
    (Life.Step (⟨true, true, true, .error .ENOENT, true, fun _ _ => .block (), ()⟩ : Launch Unit))
    (Life.start (⟨true, true, true, .error .ENOENT, true, fun _ _ => .block (), ()⟩ : Launch Unit))
    [.thread, .thread] s ∧ s.thread = .zombie ∧ s.waiter = .waiting ∧ s.posts = [] ∧
      ∀ op, ¬s.Allowed op := by
  obtain ⟨s, hr, hz, hp, hsem, hw⟩ := Life.run_failed
    (l := (⟨true, true, true, .error .ENOENT, true, fun _ _ => .block (), ()⟩ : Launch Unit))
    (Or.inl ⟨_, rfl⟩)
  refine ⟨s, hr, hz, hw, hp, fun op hal => ?_⟩
  cases op with
  | thread => exact hal.2 hz
  | exit status | fault k ty va =>
    rw [Life.Allowed, hz] at hal
    cases hal
  | wait =>
    rw [Life.Allowed, Life.WaiterReady, hw, hsem] at hal
    exact absurd hal (Nat.lt_irrefl 0)

end OS161
