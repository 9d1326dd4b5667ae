import OS161.Transition
import OS161.Basic

/-!
# Semaphores of `semfs`

A semaphore of `semfs` is a count with a lock and a condition variable. Reading takes from the
count and waits on `sems_cv` for what is missing, writing adds to it, and truncating sets it.
`synch.c` ships locks and condition variables without a body; they are taken as `synch.h`
describes them : a thread that waits gives up the lock as it goes to sleep, `cv_signal` wakes
one sleeping thread, whichever it likes, `cv_broadcast` all of them, and a woken thread has to
get the lock again.

`semfs_wakeup` takes it that nobody sleeps when the count is positive. This is not so after a
`cv_signal` : until the woken reader is back, the count is `1` and the other readers still
sleep, and what is written then wakes nobody (`semfs_stuck`). Where no such write happens, the
count is `0` whenever a reader sleeps, or `1` with a reader on its way (`SemfsSem.Inv`), and no
wake-up is lost (`semfs_never_stuck`).
-/

namespace OS161

variable {T : Type}

/-! ## The semaphore -/

/-- A thread inside `semfs_read` with what it still has to take. -/
structure SemfsReader (T : Type) where
  thread : T
  uioResid : ℕ
  deriving DecidableEq, Repr

/-- `struct semfs_sem` : the count, the readers asleep on `sems_cv`, and the readers that were
woken and do not have `sems_lock` again yet. -/
structure SemfsSem (T : Type) where
  semsCount : ℕ
  semsCv : List (SemfsReader T)
  woken : List (SemfsReader T)
  deriving DecidableEq, Repr

/-- `semfs_sem_create`. -/
def semfsSemCreate : SemfsSem T :=
  ⟨0, [], []⟩

namespace SemfsSem

/-- `cv_wait`. -/
def cvWait (s : SemfsSem T) (r : SemfsReader T) : SemfsSem T :=
  { s with semsCv := s.semsCv ++ [r] }

/-- `cv_signal` : one sleeping reader wakes, the choice of which is `pick`. -/
def cvSignal (s : SemfsSem T) (pick : ℕ) : SemfsSem T :=
  match s.semsCv[pick % s.semsCv.length]? with
  | none => s
  | some r => { s with
      semsCv := s.semsCv.eraseIdx (pick % s.semsCv.length)
      woken := r :: s.woken }

/-- `cv_broadcast`. -/
def cvBroadcast (s : SemfsSem T) : SemfsSem T :=
  { s with semsCv := [], woken := s.semsCv ++ s.woken }

/-- `semfs_wakeup`. -/
def wakeup (s : SemfsSem T) (newcount pick : ℕ) : SemfsSem T :=
  if 0 < s.semsCount ∨ newcount = 0 then s
  else if newcount = 1 then s.cvSignal pick
  else s.cvBroadcast

/-- What a section under `sems_lock` did. -/
inductive Event (T : Type)
  | waits (t : T)
  | hasRead (t : T)
  | wrote (t : T) (result : Option Errno)
  | truncated (t : T) (result : Option Errno)
  deriving DecidableEq, Repr

/-- The loop of `semfs_read` with the lock held, until the thread waits or is done. -/
def readLoop : ℕ → SemfsSem T → SemfsReader T → Except Halt (Event T × SemfsSem T)
  | 0, _, _ => .error .hang
  | fuel + 1, s, r =>
    if r.uioResid = 0 then .ok (.hasRead r.thread, s)
    else
      let consume :=
        if 0 < s.semsCount then
          if s.semsCount < r.uioResid then s.semsCount else r.uioResid
        else 0
      let s := { s with semsCount := s.semsCount - consume }
      let r := { r with uioResid := r.uioResid - consume }
      if r.uioResid = 0 then .ok (.hasRead r.thread, s)
      else if s.semsCount = 0 then .ok (.waits r.thread, s.cvWait r)
      else readLoop fuel s r

/-- The number of rounds of the loop that the model runs. -/
def readFuel : ℕ :=
  2

/-- `semfs_write` of `uioResid` bytes. -/
def write (s : SemfsSem T) (t : T) (uioResid pick : ℕ) : Event T × SemfsSem T :=
  if uioResid = 0 then (.wrote t none, s)
  else
    let newcount := word32 (s.semsCount + uioResid)
    if newcount < s.semsCount then (.wrote t (some .EFBIG), s)
    else (.wrote t none, { s.wakeup newcount pick with semsCount := newcount })

/-- `semfs_truncate`. -/
def truncate (s : SemfsSem T) (t : T) (len : ℤ) (pick : ℕ) : Event T × SemfsSem T :=
  if len < 0 then (.truncated t (some .EINVAL), s)
  else if 2 ^ 32 - 1 < len then (.truncated t (some .EFBIG), s)
  else (.truncated t none, { s.wakeup len.toNat pick with semsCount := len.toNat })

/-- The sections that may run next : a call, or the way back into the loop of a reader that was
woken. -/
inductive Op (T : Type)
  | read (t : T) (uioResid : ℕ)
  | resume (r : SemfsReader T)
  | write (t : T) (uioResid pick : ℕ)
  | truncate (t : T) (len : ℤ) (pick : ℕ)
  deriving DecidableEq, Repr

/-- A section under the lock of the semaphore. -/
def exec [DecidableEq T] (s : SemfsSem T) : Op T → Except Halt (Event T × SemfsSem T)
  | .read t uioResid => readLoop readFuel s ⟨t, uioResid⟩
  | .resume r => readLoop readFuel { s with woken := s.woken.erase r } r
  | .write t uioResid pick => .ok (s.write t uioResid pick)
  | .truncate t len pick => .ok (s.truncate t len pick)

/-- A thread is at one place at a time. -/
def Allowed (s : SemfsSem T) : Op T → Prop
  | .read t uioResid => (∀ r ∈ s.semsCv ++ s.woken, r.thread ≠ t) ∧ uioResid < 2 ^ 32
  | .resume r => r ∈ s.woken
  | .write t uioResid _ => (∀ r ∈ s.semsCv ++ s.woken, r.thread ≠ t) ∧ uioResid < 2 ^ 32
  | .truncate t _ _ => ∀ r ∈ s.semsCv ++ s.woken, r.thread ≠ t

instance [DecidableEq T] (s : SemfsSem T) (op : Op T) : Decidable (s.Allowed op) :=
  match op with
  | .read _ _ => inferInstanceAs (Decidable (_ ∧ _))
  | .resume _ => inferInstanceAs (Decidable (_ ∈ _))
  | .write _ _ _ => inferInstanceAs (Decidable (_ ∧ _))
  | .truncate _ _ _ => inferInstanceAs (Decidable (∀ _ ∈ _, _))

/-- A section of some thread. -/
def Step [DecidableEq T] (s : SemfsSem T) (op : Op T) (s' : SemfsSem T) : Prop :=
  s.Allowed op ∧ ∃ ev, s.exec op = .ok (ev, s')

/-- Every woken reader has finished or sleeps again, there is something to take, and a reader
sleeps all the same. -/
def Stuck (s : SemfsSem T) : Prop :=
  s.woken = [] ∧ 0 < s.semsCount ∧ s.semsCv ≠ []

/-! ## What a section does -/

/-- The loop takes what it can and waits for the rest. -/
theorem readLoop_eq (s : SemfsSem T) (r : SemfsReader T) : readLoop readFuel s r =
    .ok (if r.uioResid ≤ s.semsCount then
        (.hasRead r.thread, { s with semsCount := s.semsCount - r.uioResid })
      else (.waits r.thread,
        cvWait { s with semsCount := 0 } { r with uioResid := r.uioResid - s.semsCount })) := by
  have hconsume : (if 0 < s.semsCount then
      if s.semsCount < r.uioResid then s.semsCount else r.uioResid else 0) =
        min s.semsCount r.uioResid := by
    split_ifs <;> omega
  by_cases h0 : r.uioResid = 0
  · simp [readFuel, readLoop, h0]
  · simp only [readFuel, readLoop, if_neg h0, hconsume]
    by_cases hle : r.uioResid ≤ s.semsCount
    · rw [if_pos hle, min_eq_right hle, if_pos (Nat.sub_self _)]
    · have hlt : s.semsCount < r.uioResid := not_le.mp hle
      rw [if_neg hle, min_eq_left hlt.le, if_neg (by omega), Nat.sub_self, if_pos rfl]

/-- A wake-up from the count `0` to a positive one leaves nobody asleep, or the new count is `1`
and there is a reader on its way. -/
theorem wakeup_of_zero (s : SemfsSem T) {newcount : ℕ} (h0 : s.semsCount = 0)
    (hnew : newcount ≠ 0) (pick : ℕ) : (s.wakeup newcount pick).semsCv = [] ∨
      newcount = 1 ∧ (s.wakeup newcount pick).woken ≠ [] := by
  rw [wakeup, if_neg (by omega)]
  split_ifs with h1
  · by_cases hcv : s.semsCv = []
    · left
      simp [cvSignal, hcv]
    · right
      have hlt := Nat.mod_lt pick (List.length_pos_iff.mpr hcv)
      simp [cvSignal, List.getElem?_eq_getElem hlt, h1]
  · exact Or.inl rfl

theorem wakeup_of_pos (s : SemfsSem T) {newcount : ℕ} (h : 0 < s.semsCount ∨ newcount = 0)
    (pick : ℕ) : s.wakeup newcount pick = s :=
  if_pos h

/-! ## No wake-up is lost without a write in between -/

/-- A write or a truncation raises the count from `0`, or while nobody sleeps. -/
def Heard (s : SemfsSem T) : Op T → Prop
  | .read _ _ => True
  | .resume _ => True
  | .write _ uioResid _ => uioResid = 0 ∨ s.semsCount = 0 ∨ s.semsCv = []
  | .truncate _ len _ => len ≤ s.semsCount ∨ s.semsCount = 0 ∨ s.semsCv = []

instance [DecidableEq T] (s : SemfsSem T) (op : Op T) : Decidable (s.Heard op) :=
  match op with
  | .read _ _ => inferInstanceAs (Decidable True)
  | .resume _ => inferInstanceAs (Decidable True)
  | .write _ _ _ => inferInstanceAs (Decidable (_ ∨ _))
  | .truncate _ _ _ => inferInstanceAs (Decidable (_ ∨ _))

/-- While a reader sleeps there is nothing to take, or one unit with a reader on its way. Every
reader that is not done has something to take. -/
structure Inv (s : SemfsSem T) : Prop where
  pos : ∀ r ∈ s.semsCv ++ s.woken, 0 < r.uioResid
  matched : s.semsCv ≠ [] → s.semsCount = 0 ∨ s.semsCount = 1 ∧ s.woken ≠ []

variable {s s' : SemfsSem T} {r : SemfsReader T} {ev : Event T} {op : Op T}

theorem Inv.create : (semfsSemCreate : SemfsSem T).Inv :=
  ⟨fun _ h => absurd h List.not_mem_nil, fun h => absurd rfl h⟩

theorem Inv.not_stuck (h : s.Inv) : ¬s.Stuck := by
  rintro ⟨hw, hpos, hcv⟩
  rcases h.matched hcv with h0 | ⟨-, hne⟩
  · omega
  · exact hne hw

/-- A reader that has something to take leaves nothing behind while another one sleeps. -/
theorem Inv.of_readLoop (hpos : ∀ r ∈ s.semsCv ++ s.woken, 0 < r.uioResid)
    (hle : s.semsCv ≠ [] → s.semsCount ≤ 1) (hr : 0 < r.uioResid)
    (h : readLoop readFuel s r = .ok (ev, s')) : s'.Inv := by
  rw [readLoop_eq] at h
  split_ifs at h with hc
  · cases h
    refine ⟨hpos, fun hne => Or.inl ?_⟩
    have := hle hne
    change s.semsCount - r.uioResid = 0
    omega
  · cases h
    refine ⟨fun r' hr' => ?_, fun _ => Or.inl rfl⟩
    simp only [cvWait, List.mem_append, List.mem_singleton] at hr'
    rcases hr' with (hr' | rfl) | hr'
    · exact hpos r' (List.mem_append_left _ hr')
    · change 0 < r.uioResid - s.semsCount
      omega
    · exact hpos r' (List.mem_append_right _ hr')

/-- The readers of a semaphore are the same after a wake-up. -/
theorem mem_wakeup {newcount pick : ℕ}
    (h : r ∈ (s.wakeup newcount pick).semsCv ++ (s.wakeup newcount pick).woken) :
    r ∈ s.semsCv ++ s.woken := by
  unfold wakeup at h
  split_ifs at h
  · exact h
  · unfold cvSignal at h
    split at h
    · exact h
    · rename_i r' hr'
      simp only [List.mem_append, List.mem_cons] at h ⊢
      rcases h with h | rfl | h
      · exact Or.inl (List.mem_of_mem_eraseIdx h)
      · exact Or.inl (List.mem_of_getElem? hr')
      · exact Or.inr h
  · simpa [cvBroadcast] using h

/-- A new count, with the wake-up for it, where it is not more than the old one or nobody sleeps
or the old one is `0`. -/
theorem Inv.setCount (hi : s.Inv) {newcount : ℕ} (pick : ℕ)
    (hheard : newcount ≤ s.semsCount ∨ s.semsCount = 0 ∨ s.semsCv = []) :
    Inv { s.wakeup newcount pick with semsCount := newcount } := by
  refine ⟨fun r hr => hi.pos r (mem_wakeup hr), fun hne => ?_⟩
  change newcount = 0 ∨ newcount = 1 ∧ (s.wakeup newcount pick).woken ≠ []
  by_cases hnew : newcount = 0
  · exact Or.inl hnew
  by_cases h0 : s.semsCount = 0
  · exact Or.inr ((wakeup_of_zero s h0 hnew pick).resolve_left hne)
  -- The count was positive, so that nobody is woken, and a sleeping reader means that it was `1`.
  rw [wakeup_of_pos s (Or.inl (Nat.pos_of_ne_zero h0))] at hne ⊢
  obtain ⟨h1, hw⟩ := (hi.matched hne).resolve_left h0
  have hle := (hheard.resolve_right fun h => h.elim h0 hne)
  exact Or.inr ⟨by omega, hw⟩

theorem Inv.step [DecidableEq T] (hi : s.Inv) (hs : guarded Heard Step s op s') : s'.Inv := by
  obtain ⟨⟨hal, ev, h⟩, hheard⟩ := hs
  have hle : s.semsCv ≠ [] → s.semsCount ≤ 1 := fun hne => by
    rcases hi.matched hne with h0 | ⟨h1, -⟩ <;> omega
  cases op with
  | read t n =>
    by_cases hn : n = 0
    · have h' : readLoop readFuel s ⟨t, n⟩ = .ok (ev, s') := h
      rw [readLoop_eq, if_pos (by simp [hn])] at h'
      cases h'
      simpa [hn] using hi
    · exact .of_readLoop hi.pos hle (Nat.pos_of_ne_zero hn) h
  | resume r =>
    refine Inv.of_readLoop (s := { s with woken := s.woken.erase r }) (fun r' hr' => ?_) hle
      (hi.pos r (List.mem_append_right _ hal)) h
    rcases List.mem_append.mp hr' with hr' | hr'
    · exact hi.pos r' (List.mem_append_left _ hr')
    · exact hi.pos r' (List.mem_append_right _ (List.mem_of_mem_erase hr'))
  | write t n pick =>
    have h' := Except.ok.inj h
    simp only [write] at h'
    split_ifs at h' with h0
    · cases h'
      exact hi
    · cases h'
      exact hi
    · cases h'
      exact hi.setCount pick (Or.inr ((show n = 0 ∨ _ from hheard).resolve_left h0))
  | truncate t len pick =>
    have h' := Except.ok.inj h
    unfold truncate at h'
    split_ifs at h' with hneg hbig
    · cases h'
      exact hi
    · cases h'
      exact hi
    · cases h'
      refine hi.setCount pick ((show len ≤ s.semsCount ∨ _ from hheard).imp_left fun hlen => ?_)
      omega

end SemfsSem

/-- In every run in which the count of the semaphore is raised only from `0` or while nobody
sleeps, no reader sleeps on a positive count with nobody on its way. -/
theorem semfs_never_stuck [DecidableEq T] {tr : List (SemfsSem.Op T)} {s : SemfsSem T}
    (hr : Run (guarded SemfsSem.Heard SemfsSem.Step) semfsSemCreate tr s) : ¬s.Stuck :=
  SemfsSem.Inv.not_stuck (hr.invariant SemfsSem.Inv.create fun _ _ _ hi hs => hi.step hs)

/-! ## Two readers and two writes -/

/-- The step of an allowed section, for concrete runs. -/
def SemfsSem.next [DecidableEq T] (s : SemfsSem T) (op : SemfsSem.Op T) :
    Option (SemfsSem.Op T × SemfsSem T) :=
  if s.Allowed op then (s.exec op).toOption.map fun r => (op, r.2) else none

theorem SemfsSem.step_of_next [DecidableEq T] {s s' : SemfsSem T} {op a : SemfsSem.Op T}
    (h : s.next op = some (a, s')) : s.Step a s' ∧ a = op := by
  obtain ⟨hal, r, he, hr⟩ := ok_of_guard_map h
  cases hr
  exact ⟨⟨hal, r.1, he⟩, rfl⟩

/-- The same for sections that raise the count from `0` or while nobody sleeps. -/
def SemfsSem.nextHeard [DecidableEq T] (s : SemfsSem T) (op : SemfsSem.Op T) :
    Option (SemfsSem.Op T × SemfsSem T) :=
  if s.Heard op then s.next op else none

theorem SemfsSem.step_of_nextHeard [DecidableEq T] {s s' : SemfsSem T} {op a : SemfsSem.Op T}
    (h : s.nextHeard op = some (a, s')) : guarded Heard Step s a s' := by
  unfold SemfsSem.nextHeard at h
  split_ifs at h with hheard
  obtain ⟨hstep, rfl⟩ := step_of_next h
  exact ⟨hstep, hheard⟩

/-- Two readers wait for one unit each, and both units are written at once. -/
theorem semfs_never_stuck_broadcast : ∃ (tr : List (SemfsSem.Op ℕ)) (s : SemfsSem ℕ),
    Run (guarded SemfsSem.Heard SemfsSem.Step) semfsSemCreate tr s ∧
      s = ⟨1, [], [⟨2, 1⟩]⟩ ∧ ¬s.Stuck := by
  have heval : execute SemfsSem.nextHeard [] semfsSemCreate
      [.read 1 1, .read 2 1, .write 3 2 0, .resume ⟨1, 1⟩] =
        some ([.resume ⟨1, 1⟩, .write 3 2 0, .read 2 1, .read 1 1], ⟨1, [], [⟨2, 1⟩]⟩) := by
    decide
  have hrun := Run.of_execute heval SemfsSem.step_of_nextHeard
  exact ⟨_, _, hrun, rfl, semfs_never_stuck hrun⟩

/-- Two readers wait for one unit each. The first write wakes one of them; the second comes
before that reader has the lock again, and wakes nobody. The first reader takes its unit, and
the other sleeps on. -/
theorem semfs_stuck : ∃ (tr : List (SemfsSem.Op ℕ)) (s : SemfsSem ℕ),
    Run SemfsSem.Step semfsSemCreate tr s ∧ s = ⟨1, [⟨2, 1⟩], []⟩ ∧ s.Stuck := by
  have heval : execute SemfsSem.next [] semfsSemCreate
      [.read 1 1, .read 2 1, .write 3 1 0, .write 3 1 0, .resume ⟨1, 1⟩] =
        some ([.resume ⟨1, 1⟩, .write 3 1 0, .write 3 1 0, .read 2 1, .read 1 1],
          ⟨1, [⟨2, 1⟩], []⟩) := by
    decide
  exact ⟨_, _, .of_execute heval (fun h => (SemfsSem.step_of_next h).1), rfl, rfl, by decide,
    by decide⟩

end OS161
