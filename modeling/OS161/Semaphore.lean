import OS161.Basic
import OS161.Transition

/-!
# Semaphores

`P` and `V` of `synch.c`, for any number of threads on one semaphore. A thread holds
`sem_lock` from the test of `sem_count` to the end of `P`, or until it is on the wait channel;
a thread that `V` woke has to take the lock again, and then goes back to the test. Another
thread may have taken the permit by then, and the woken thread sleeps again.

`Sem.Inv` relates the three populations : with a thread on the channel, there is a woken thread
on its way for every permit left. It holds in every run (`Sem.run_inv`), and so no thread
sleeps while a permit is left that nobody is about to take (`semaphore_permits`).
-/

namespace OS161

variable {T : Type}

/-! ## The semaphore -/

/-- `threadlist_addtail` on a list of threads, the head first : `wchan_sleep` puts a thread at
the end of the channel. -/
def threadlistAddtail (tl : List T) (t : T) : List T :=
  tl ++ [t]

/-- `threadlist_remhead`, with `none` for the `NULL` that is returned when the list is empty :
`wchan_wakeone` takes the thread at the head. -/
def threadlistRemhead : List T → Option T × List T
  | [] => (none, [])
  | t :: tl => (some t, tl)

/-- `struct semaphore` : the count, the threads on the wait channel, and those that were woken
and have not taken `sem_lock` again. -/
structure Sem (T : Type) where
  semCount : ℕ
  semWchan : List T
  woken : List T
  deriving DecidableEq, Repr

/-- `sem_create`. -/
def semCreate (initialCount : ℕ) : Sem T :=
  ⟨initialCount, [], []⟩

/-- What a section under `sem_lock` did. -/
inductive SemEvent (T : Type)
  | slept (t : T)
  | acquired (t : T)
  | released (t : T)
  deriving DecidableEq, Repr

namespace Sem

/-- The loop of `P` with the lock held : the thread sleeps, and is on the channel before the lock
is released, or it takes a permit. -/
def loop (s : Sem T) (t : T) : Except Halt (SemEvent T × Sem T) := do
  if s.semCount = 0 then .ok (.slept t, { s with semWchan := threadlistAddtail s.semWchan t })
  else do
    kassert (0 < s.semCount) "sem->sem_count > 0"
    .ok (.acquired t, { s with semCount := s.semCount - 1 })

/-- `wchan_wakeone` on the channel of the semaphore. -/
def wakeone (s : Sem T) : Sem T :=
  match threadlistRemhead s.semWchan with
  | (none, _) => s
  | (some t, tl) => { s with semWchan := tl, woken := t :: s.woken }

/-- `V`. -/
def v (s : Sem T) (t : T) : Except Halt (SemEvent T × Sem T) := do
  let s := { s with semCount := word32 (s.semCount + 1) }
  kassert (0 < s.semCount) "sem->sem_count > 0"
  .ok (.released t, s.wakeone)

/-- The sections a thread may run next : a call of `P` or `V` by a thread that is not inside
`P`, and the way back into the loop of one that was woken. -/
inductive Op (T : Type)
  | p (t : T)
  | resume (t : T)
  | v (t : T)

/-- A section under `sem_lock`. -/
def exec [DecidableEq T] (s : Sem T) : Op T → Except Halt (SemEvent T × Sem T)
  | .p t => s.loop t
  | .resume t => loop { s with woken := s.woken.erase t } t
  | .v t => s.v t

/-- A thread is in one place only. -/
def Allowed (s : Sem T) : Op T → Prop
  | .p t => t ∉ s.semWchan ∧ t ∉ s.woken
  | .resume t => t ∈ s.woken
  | .v t => t ∉ s.semWchan ∧ t ∉ s.woken

instance [DecidableEq T] (s : Sem T) (op : Op T) : Decidable (s.Allowed op) :=
  match op with
  | .p _ => inferInstanceAs (Decidable (_ ∧ _))
  | .resume _ => inferInstanceAs (Decidable (_ ∈ _))
  | .v _ => inferInstanceAs (Decidable (_ ∧ _))

/-- A section of some thread. -/
def Step [DecidableEq T] (s : Sem T) (ev : SemEvent T) (s' : Sem T) : Prop :=
  ∃ op, s.Allowed op ∧ s.exec op = .ok (ev, s')

end Sem

/-- The calls of `P` that have returned. -/
def SemEvent.acquisitions : List (SemEvent T) → ℕ
  | [] => 0
  | .slept _ :: tr => acquisitions tr
  | .acquired _ :: tr => acquisitions tr + 1
  | .released _ :: tr => acquisitions tr

/-- The calls of `V` that have returned. -/
def SemEvent.releases : List (SemEvent T) → ℕ
  | [] => 0
  | .slept _ :: tr => releases tr
  | .acquired _ :: tr => releases tr
  | .released _ :: tr => releases tr + 1

/-! ## Permits and wake-ups -/

namespace Sem

/-- A thread on the channel is matched by woken threads for all permits, and every permit is
accounted for. -/
structure Inv (initialCount : ℕ) (tr : List (SemEvent T)) (s : Sem T) : Prop where
  lt : s.semCount < 2 ^ 32
  count : s.semCount + SemEvent.acquisitions tr = initialCount + SemEvent.releases tr
  matched : s.semWchan ≠ [] → s.semCount ≤ s.woken.length

variable {n : ℕ} {tr : List (SemEvent T)} {s s' : Sem T} {ev : SemEvent T} {t : T}

theorem Inv.create (hn : n < 2 ^ 32) : Inv n [] (semCreate n : Sem T) :=
  ⟨hn, rfl, fun h => absurd rfl h⟩

/-- The loop never fails its assertion. -/
theorem loop_eq (s : Sem T) (t : T) : s.loop t =
    .ok (if s.semCount = 0 then (.slept t, { s with semWchan := threadlistAddtail s.semWchan t })
      else (.acquired t, { s with semCount := s.semCount - 1 })) := by
  unfold loop
  split_ifs with h0
  · rfl
  · rw [kassert_pos (Nat.pos_of_ne_zero h0), ok_bind]

/-- A thread that comes to the loop takes a permit, or sleeps where there is none. The permit it
takes makes up for the woken thread that it may have been. -/
theorem Inv.of_loop (hlt : s.semCount < 2 ^ 32)
    (hc : s.semCount + SemEvent.acquisitions tr = n + SemEvent.releases tr)
    (hm : s.semWchan ≠ [] → s.semCount ≤ s.woken.length + 1) (h : s.loop t = .ok (ev, s')) :
    Inv n (ev :: tr) s' := by
  rw [loop_eq] at h
  split_ifs at h with h0
  · cases h
    exact ⟨hlt, hc, fun _ => h0.trans_le (Nat.zero_le _)⟩
  · cases h
    refine ⟨(Nat.sub_le _ _).trans_lt hlt, ?_, fun hne => ?_⟩
    · change s.semCount - 1 + (SemEvent.acquisitions tr + 1) = n + SemEvent.releases tr
      omega
    · have := hm hne
      change s.semCount - 1 ≤ s.woken.length
      omega

/-- `V` gives a permit back, and may send a thread on its way. -/
theorem v_eq_ok (q : Sem T) (h : q.semCount + 1 < 2 ^ 32) (t : T) :
    ∃ r, q.v t = .ok r ∧ r.2.semCount = q.semCount + 1 ∧
      r.2.semWchan.length + r.2.woken.length = q.semWchan.length + q.woken.length ∧
      r.2.woken.length ≤ q.woken.length + 1 := by
  have hw : word32 (q.semCount + 1) = q.semCount + 1 := Nat.mod_eq_of_lt h
  simp only [v, hw]
  rw [kassert_pos (Nat.succ_pos _), ok_bind]
  refine ⟨_, rfl, ?_⟩
  unfold wakeone
  cases q.semWchan with
  | nil => simp [threadlistRemhead]
  | cons u tl =>
    refine ⟨rfl, ?_, le_rfl⟩
    simp only [threadlistRemhead, List.length_cons]
    omega

/-- `V` adds a permit, and wakes a thread if there is one on the channel. -/
theorem Inv.v (hi : Inv n tr s) (h : s.v t = .ok (ev, s')) : Inv n (ev :: tr) s' := by
  simp only [Sem.v, bind_eq_ok, kassert_eq_ok, Except.ok.injEq, Prod.mk.injEq] at h
  obtain ⟨-, hpos, rfl, rfl⟩ := h
  have hlt := hi.lt
  have hcount : word32 (s.semCount + 1) = s.semCount + 1 := by
    simp only [word32] at hpos ⊢
    omega
  have hlt' : s.semCount + 1 < 2 ^ 32 := by
    rw [← hcount]
    exact Nat.mod_lt _ (by decide)
  have hsum : s.semCount + 1 + SemEvent.acquisitions tr = n + (SemEvent.releases tr + 1) := by
    have := hi.count
    omega
  rw [hcount]
  cases hw : s.semWchan with
  | nil =>
    refine ⟨?_, ?_, fun hne => absurd ?_ hne⟩ <;> simp only [wakeone, threadlistRemhead]
    · exact hlt'
    · exact hsum
  | cons u tl =>
    have hm := hi.matched (by rw [hw]; exact List.cons_ne_nil u tl)
    refine ⟨?_, ?_, fun _ => ?_⟩ <;> simp only [wakeone, threadlistRemhead]
    · exact hlt'
    · exact hsum
    · simpa using hm

theorem Inv.step [DecidableEq T] (hi : Inv n tr s) (hs : s.Step ev s') : Inv n (ev :: tr) s' := by
  obtain ⟨op, hal, h⟩ := hs
  cases op with
  | p t => exact .of_loop hi.lt hi.count (fun hne => (hi.matched hne).trans (Nat.le_succ _)) h
  | resume t =>
    refine Inv.of_loop (s := { s with woken := s.woken.erase t }) hi.lt hi.count (fun hne => ?_) h
    have hlen : (s.woken.erase t).length + 1 = s.woken.length := by
      have hpos := List.length_pos_of_mem (show t ∈ s.woken from hal)
      rw [List.length_erase_of_mem hal]
      omega
    rw [hlen]
    exact hi.matched hne
  | v t => exact hi.v h

theorem run_inv [DecidableEq T] (hn : n < 2 ^ 32) (hr : Run Step (semCreate n) tr s) :
    Inv n tr s :=
  hr.trace_induct (.create hn) fun _ _ _ _ _ hi hs => hi.step hs

end Sem

/-- In every run of any number of threads, the count is the initial count with the completed
calls of `V` and less those of `P`. As long as a thread is on the channel there are at least as
many woken threads on their way as permits left; in particular nobody sleeps while there is a
permit that no thread is about to take. No assertion of `P` fails. -/
theorem semaphore_permits [DecidableEq T] {n : ℕ} (hn : n < 2 ^ 32) {tr : List (SemEvent T)}
    {s : Sem T} (hr : Run Sem.Step (semCreate n) tr s) :
    (s.semCount : ℤ) = n + SemEvent.releases tr - SemEvent.acquisitions tr ∧
      (s.semWchan ≠ [] → s.semCount ≤ s.woken.length) ∧
      (s.semWchan ≠ [] → 0 < s.semCount → s.woken ≠ []) ∧
      ∀ t, ∃ ev s', s.loop t = .ok (ev, s') := by
  have hi := Sem.run_inv hn hr
  refine ⟨?_, hi.matched, fun hne hpos hw => ?_, fun t => ⟨_, _, Sem.loop_eq s t⟩⟩
  · have := hi.count
    omega
  · have := hi.matched hne
    rw [hw, List.length_nil] at this
    omega

/-- The step of an allowed section, for concrete runs. -/
def Sem.next [DecidableEq T] (s : Sem T) (op : Sem.Op T) : Option (SemEvent T × Sem T) :=
  if s.Allowed op then (s.exec op).toOption else none

theorem Sem.step_of_next [DecidableEq T] {s s' : Sem T} {op : Sem.Op T} {ev : SemEvent T}
    (h : s.next op = some (ev, s')) : s.Step ev s' :=
  ⟨op, ok_of_guard h⟩

/-- A third thread takes the permit for which the first was woken, which then sleeps again. The
next permit wakes the second, and the first stays on the channel. -/
theorem semaphore_permits_barging : ∃ (tr : List (SemEvent ℕ)) (s : Sem ℕ),
    Run Sem.Step (semCreate 0) tr s ∧ s = ⟨1, [1], [2]⟩ ∧ s.semCount ≤ s.woken.length := by
  have heval : execute Sem.next [] (semCreate 0)
      [.p 1, .p 2, .v 9, .p 3, .resume 1, .v 9] =
        some ([.released 9, .slept 1, .acquired 3, .released 9, .slept 2, .slept 1],
          ⟨1, [1], [2]⟩) := by
    decide
  have hrun := Run.of_execute heval Sem.step_of_next
  exact ⟨_, _, hrun, rfl, (semaphore_permits (by decide) hrun).2.1 (by decide)⟩

end OS161
