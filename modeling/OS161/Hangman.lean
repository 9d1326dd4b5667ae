import OS161.Basic
import OS161.PointerGraph
import OS161.Transition

/-!
# The deadlock detector

An actor (a thread or a CPU) waits for at most one lockable, and a lockable is held by at most one
actor. `Hangman.next` is the waits-for graph : from an actor to what it waits for, and from a
lockable to its holder, so that it is a graph of pointers in the sense of `PointerGraph`.

`hangmanCheck` follows the pointers from a lockable and reports if it meets the actor that is about
to wait. The loops of the source have no bound, so the model gives them fuel and halts by `hang`
when it runs out; the results are about all sufficiently large fuels.

`Hangman.Sound.step` : every call that passes the consistency checks keeps the graph free of
endless chases. An acquisition turns an edge around, and is safe because the new holder no longer
waits. `hangman_exact` : in every reachable state there is no cycle, the check returns, and a
deadlock is reported exactly if the new wait closes a cycle.
-/

set_option linter.unusedSectionVars false

namespace OS161

open PointerGraph Function

variable {A L : Type} [DecidableEq A] [DecidableEq L]

/-- The `a_waiting` fields of the actors and the `l_holding` fields of the lockables. -/
structure Hangman (A L : Type) where
  waiting : A → Option L
  holding : L → Option A

/-- The first loop of `hangman_check` : whether `target` is met from `cur` on. -/
def hangmanFind (s : Hangman A L) (target : A) : ℕ → Option A → Except Halt Bool
  | _, none => .ok false
  | 0, some _ => .error .hang
  | fuel + 1, some cur =>
    if cur = target then .ok true
    else match s.waiting cur with
      | none => .ok false
      | some l => hangmanFind s target fuel (s.holding l)

/-- The second loop of `hangman_check`, which prints the actors on the way and what they wait
for. -/
def hangmanReport (s : Hangman A L) (target : A) : ℕ → Option A → Except Halt (List (A × L))
  | 0, _ => .error .hang
  | fuel + 1, cur =>
    if cur = some target then .ok []
    else do
      let c ← deref cur
      let l ← deref (s.waiting c)
      let rest ← hangmanReport s target fuel (s.holding l)
      .ok ((c, l) :: rest)

/-- `hangman_check`. -/
def hangmanCheck (fuel : ℕ) (s : Hangman A L) (start : L) (target : A) : Except Halt Unit := do
  let found ← hangmanFind s target fuel (s.holding start)
  if found then do
    let _ ← hangmanReport s target fuel (s.holding start)
    .error (.panic "Deadlock.\n")
  else .ok ()

/-- The state in which `a` waits for `l`. -/
def Hangman.wait (s : Hangman A L) (a : A) (l : L) : Hangman A L :=
  { s with waiting := update s.waiting a (some l) }

/-- The state in which `a` holds `l` and waits for nothing. -/
def Hangman.hold (s : Hangman A L) (a : A) (l : L) : Hangman A L :=
  { s with holding := update s.holding l (some a),
           waiting := update s.waiting a none }

/-- The state in which nobody holds `l`. -/
def Hangman.free (s : Hangman A L) (l : L) : Hangman A L :=
  { s with holding := update s.holding l none }

/-- `hangman_wait`. The lockable `own` is that of the detector's own spinlock. -/
def hangmanWait (fuel : ℕ) (own : L) (s : Hangman A L) (a : A) (l : L) :
    Except Halt (Hangman A L) := do
  if l = own then .ok s
  else if s.waiting a ≠ none then
    .error (.panic "hangman_wait: already waiting for something?\n")
  else do
    hangmanCheck fuel s l a
    .ok (s.wait a l)

/-- `hangman_acquire`. -/
def hangmanAcquire (own : L) (s : Hangman A L) (a : A) (l : L) : Except Halt (Hangman A L) :=
  if l = own then .ok s
  else if s.waiting a ≠ some l then
    .error (.panic "hangman_acquire: not waiting for lock %s (%p)\n")
  else if s.holding l ≠ none then
    .error (.panic "hangman_acquire: lock %s (%p) still held by %s (%p)\n")
  else .ok (s.hold a l)

/-- `hangman_release`. -/
def hangmanRelease (own : L) (s : Hangman A L) (a : A) (l : L) : Except Halt (Hangman A L) :=
  if l = own then .ok s
  else if s.waiting a ≠ none then
    .error (.panic "hangman_release: waiting for something?\n")
  else if s.holding l ≠ some a then
    .error (.panic "hangman_release: not the holder\n")
  else .ok (s.free l)

/-- A call of the detector. -/
inductive HangmanOp (A L : Type)
  | wait (a : A) (l : L)
  | acquire (a : A) (l : L)
  | release (a : A) (l : L)
  deriving DecidableEq, Repr

/-- A call that returns, that is, passes the consistency checks and reports no deadlock. -/
inductive HangmanStep (own : L) (s : Hangman A L) : HangmanOp A L → Hangman A L → Prop
  | wait {fuel : ℕ} {a : A} {l : L} {s' : Hangman A L} (h : hangmanWait fuel own s a l = .ok s') :
      HangmanStep own s (.wait a l) s'
  | acquire {a : A} {l : L} {s' : Hangman A L} (h : hangmanAcquire own s a l = .ok s') :
      HangmanStep own s (.acquire a l) s'
  | release {a : A} {l : L} {s' : Hangman A L} (h : hangmanRelease own s a l = .ok s') :
      HangmanStep own s (.release a l) s'

namespace Hangman

/-- `HANGMAN_ACTORINIT` and `HANGMAN_LOCKABLEINIT` of everything. -/
def idle : Hangman A L :=
  ⟨fun _ => none, fun _ => none⟩

/-- The waits-for graph. -/
def next (s : Hangman A L) : A ⊕ L → Option (A ⊕ L)
  | .inl a => (s.waiting a).map .inr
  | .inr l => (s.holding l).map .inl

variable {s s' : Hangman A L} {own l : L} {a c target : A} {fuel : ℕ}

theorem edge_inl : Edge s.next (.inl a) (.inr l) ↔ s.waiting a = some l := by
  simp [Edge, next]

theorem edge_inr : Edge s.next (.inr l) (.inl a) ↔ s.holding l = some a := by
  simp [Edge, next]

theorem next_wait : (s.wait a l).next = update s.next (.inl a) (some (.inr l)) := by
  funext x
  rcases x with c | m
  · by_cases hc : c = a
    · subst hc
      simp [next, wait]
    · simp [next, wait, hc]
  · simp [next, wait]

theorem next_free_le {x y : A ⊕ L} (h : (s.free l).next x = some y) : s.next x = some y := by
  rcases x with c | m
  · exact h
  · by_cases hm : m = l
    · subst hm
      simp [next, free] at h
    · simpa [next, free, hm] using h

/-- The state between the two assignments of `hangman_acquire`, taken in the other order : `a`
waits for nothing. -/
def stopWaiting (s : Hangman A L) (a : A) : Hangman A L :=
  { s with waiting := update s.waiting a none }

theorem next_stopWaiting_le {x y : A ⊕ L} (h : (s.stopWaiting a).next x = some y) :
    s.next x = some y := by
  rcases x with c | m
  · by_cases hc : c = a
    · subst hc
      simp [next, stopWaiting] at h
    · simpa [next, stopWaiting, hc] using h
  · exact h

theorem next_hold :
    (s.hold a l).next = update (s.stopWaiting a).next (.inr l) (some (.inl a)) := by
  funext x
  rcases x with c | m
  · simp [next, hold, stopWaiting]
  · by_cases hm : m = l
    · subst hm
      simp [next, hold]
    · simp [next, hold, stopWaiting, hm]

/-! ## The check -/

/-- The holder of what `c` waits for, to which both loops go from `c`. -/
def waitsOn (s : Hangman A L) (c : A) : Option A :=
  (s.waiting c).bind s.holding

/-- The chase from `cur` meets `target`. -/
def LeadsFrom (s : Hangman A L) (cur : Option A) (target : A) : Prop :=
  ∃ c, cur = some c ∧ Leads s.next (.inl c) (.inl target)

@[simp] theorem not_leadsFrom_none : ¬s.LeadsFrom none target := by
  simp [LeadsFrom]

theorem leadsFrom_holding :
    s.LeadsFrom (s.holding l) target ↔ Leads s.next (.inr l) (.inl target) := by
  cases hh : s.holding l with
  | none =>
    refine iff_of_false not_leadsFrom_none fun hl => ?_
    cases Leads.eq_of_none hl (by simp [next, hh])
  | some c =>
    rw [leads_of_edge (edge_inr.mpr hh) Sum.inr_ne_inl]
    simp [LeadsFrom]

theorem leadsFrom_some_self : s.LeadsFrom (some target) target :=
  ⟨target, rfl, .refl⟩

theorem leadsFrom_some (hne : c ≠ target) :
    s.LeadsFrom (some c) target ↔ s.LeadsFrom (s.waitsOn c) target := by
  unfold waitsOn
  cases hw : s.waiting c with
  | none =>
    refine iff_of_false ?_ not_leadsFrom_none
    rintro ⟨_, hc, hl⟩
    cases hc
    have heq := Leads.eq_of_none hl (by simp [next, hw])
    exact hne (Sum.inl_injective heq).symm
  | some l =>
    rw [Option.bind_some, leadsFrom_holding,
      ← leads_of_edge (edge_inl.mpr hw) (Sum.inl_injective.ne hne)]
    simp [LeadsFrom]

/-- The actor that holds what an actor waits for comes later in every chase. -/
theorem wellFounded_waitsOn (h : Ends s.next) :
    WellFounded fun d c => s.waitsOn c = some d := by
  refine Subrelation.wf ?_ (InvImage.wf (Sum.inl (β := L)) (WellFounded.transGen h))
  intro d c hd
  obtain ⟨l, hw, hh⟩ := Option.bind_eq_some_iff.mp hd
  exact .tail (.single (edge_inr.mpr hh)) (edge_inl.mpr hw)

@[simp] theorem hangmanFind_none : hangmanFind s target fuel none = .ok false := by
  cases fuel <;> rfl

theorem hangmanFind_succ (hne : c ≠ target) :
    hangmanFind s target (fuel + 1) (some c) = hangmanFind s target fuel (s.waitsOn c) := by
  unfold waitsOn
  rw [hangmanFind, if_neg hne]
  cases s.waiting c with
  | none => exact hangmanFind_none.symm
  | some l => rfl

/-- What a loop along the chase needs to end : it ends at once at the target and without an actor,
and otherwise goes on with the next actor. -/
theorem exists_fuel_of_chase (h : Ends s.next) (target : A) (P : ℕ → Option A → Prop)
    (hnone : ∀ fuel, P fuel none) (htarget : ∀ fuel, P (fuel + 1) (some target))
    (hsucc : ∀ c fuel, c ≠ target → P fuel (s.waitsOn c) → P (fuel + 1) (some c))
    (cur : Option A) : ∃ N, ∀ fuel, N ≤ fuel → P fuel cur := by
  cases cur with
  | none => exact ⟨0, fun fuel _ => hnone fuel⟩
  | some c =>
    induction c using (wellFounded_waitsOn h).induction with
    | _ c ih =>
      have hnext : ∃ N, ∀ fuel, N ≤ fuel → c ≠ target → P fuel (s.waitsOn c) := by
        cases hd : s.waitsOn c with
        | none => exact ⟨0, fun fuel _ _ => hnone fuel⟩
        | some d =>
          obtain ⟨N, hN⟩ := ih d hd
          exact ⟨N, fun fuel hf _ => hN fuel hf⟩
      obtain ⟨N, hN⟩ := hnext
      refine ⟨N + 1, fun fuel hf => ?_⟩
      obtain ⟨fuel, rfl⟩ := Nat.exists_eq_add_of_le' (Nat.le_of_add_left_le hf)
      by_cases hct : c = target
      · exact hct ▸ htarget fuel
      · exact hsucc c fuel hct (hN fuel (Nat.le_of_add_le_add_right hf) hct)

/-- The first loop tells whether the chase meets the target. -/
theorem hangmanFind_iff {cur : Option A} {found : Bool}
    (h : hangmanFind s target fuel cur = .ok found) : found = true ↔ s.LeadsFrom cur target := by
  induction fuel generalizing cur with
  | zero =>
    cases cur with
    | none =>
      cases h
      simp
    | some c => cases h
  | succ fuel ih =>
    cases cur with
    | none =>
      cases h
      simp
    | some c =>
      by_cases hct : c = target
      · subst hct
        rw [hangmanFind, if_pos rfl] at h
        cases h
        exact iff_of_true rfl leadsFrom_some_self
      · rw [hangmanFind_succ hct] at h
        rw [ih h, leadsFrom_some hct]

theorem hangmanFind_ends (h : Ends s.next) (target : A) (cur : Option A) :
    ∃ N, ∀ fuel, N ≤ fuel → ∃ found, hangmanFind s target fuel cur = .ok found := by
  refine exists_fuel_of_chase h target (fun fuel cur => ∃ found,
    hangmanFind s target fuel cur = .ok found) (fun fuel => ⟨_, hangmanFind_none⟩)
    (fun fuel => ⟨true, by simp [hangmanFind]⟩) ?_ cur
  intro c fuel hne ih
  rwa [hangmanFind_succ hne]

/-- The second loop ends, if the chase meets the target. -/
theorem hangmanReport_ends (h : Ends s.next) (target : A) (cur : Option A) :
    ∃ N, ∀ fuel, N ≤ fuel → s.LeadsFrom cur target →
      ∃ r, hangmanReport s target fuel cur = .ok r := by
  refine exists_fuel_of_chase h target (fun fuel cur => s.LeadsFrom cur target →
    ∃ r, hangmanReport s target fuel cur = .ok r) (fun fuel hl => ?_) (fun fuel _ => ?_) ?_ cur
  · exact (not_leadsFrom_none hl).elim
  · exact ⟨[], by simp [hangmanReport]⟩
  · intro c fuel hne ih hl
    rw [leadsFrom_some hne] at hl
    obtain ⟨r, hr⟩ := ih hl
    obtain ⟨d, hd, -⟩ := hl
    obtain ⟨l, hw, hh⟩ := Option.bind_eq_some_iff.mp hd
    rw [hd] at hr
    have hc : some c ≠ some target := fun heq => hne (Option.some_inj.mp heq)
    refine ⟨(c, l) :: r, ?_⟩
    rw [hangmanReport, if_neg hc, deref_some, ok_bind, hw, deref_some, ok_bind, hh, hr, ok_bind]

/-- The check returns, unless the chase from the lockable meets the actor. -/
theorem hangmanCheck_ends (h : Ends s.next) (start : L) (target : A) :
    ∃ N, ∀ fuel, N ≤ fuel →
      (Leads s.next (.inr start) (.inl target) →
        hangmanCheck fuel s start target = .error (.panic "Deadlock.\n")) ∧
      (¬Leads s.next (.inr start) (.inl target) → hangmanCheck fuel s start target = .ok ()) := by
  obtain ⟨N₁, h₁⟩ := hangmanFind_ends h target (s.holding start)
  obtain ⟨N₂, h₂⟩ := hangmanReport_ends h target (s.holding start)
  refine ⟨max N₁ N₂, fun fuel hf => ?_⟩
  obtain ⟨found, hfound⟩ := h₁ fuel (le_of_max_le_left hf)
  have hiff := hangmanFind_iff hfound
  have hreport := h₂ fuel (le_of_max_le_right hf)
  rw [← leadsFrom_holding]
  unfold hangmanCheck
  rw [hfound, ok_bind]
  refine ⟨fun hl => ?_, fun hn => if_neg fun ht => hn (hiff.mp ht)⟩
  obtain ⟨r, hr⟩ := hreport hl
  rw [if_pos (hiff.mpr hl), hr, ok_bind]

/-- A check that returns has not met the actor. -/
theorem not_leads_of_hangmanCheck {start : L} {u : Unit}
    (h : hangmanCheck fuel s start target = .ok u) : ¬Leads s.next (.inr start) (.inl target) := by
  intro hleads
  obtain ⟨found, hfound, h'⟩ := bind_eq_ok.mp h
  rw [if_pos ((hangmanFind_iff hfound).mpr (leadsFrom_holding.mpr hleads))] at h'
  obtain ⟨r, -, hpanic⟩ := bind_eq_ok.mp h'
  cases hpanic

/-! ## Runs -/

/-- What every call keeps : chases end, and nobody holds the detector's own lockable. -/
structure Sound (own : L) (s : Hangman A L) : Prop where
  ends : Ends s.next
  own_free : s.holding own = none

theorem sound_idle : Sound own (idle : Hangman A L) where
  ends := .of_none fun x => by cases x <;> rfl
  own_free := rfl

namespace Sound

/-- A wait that does not lead back to the waiting actor. -/
theorem wait (h : Sound own s) (hn : ¬Leads s.next (.inr l) (.inl a)) :
    Sound own (s.wait a l) where
  ends := by
    rw [next_wait]
    exact h.ends.link hn
  own_free := h.own_free

/-- Once `a` waits for nothing, it may become a holder. -/
theorem hold (h : Sound own s) (hl : l ≠ own) : Sound own (s.hold a l) where
  ends := by
    rw [next_hold]
    refine (h.ends.mono fun _ _ => next_stopWaiting_le).link fun hleads => ?_
    have heq := Leads.eq_of_none hleads (by simp [next, stopWaiting])
    exact Sum.inr_ne_inl heq
  own_free := (update_of_ne hl.symm _ _).trans h.own_free

theorem free (h : Sound own s) : Sound own (s.free l) where
  ends := h.ends.mono fun _ _ => next_free_le
  own_free := by
    by_cases hl : own = l
    · subst hl
      exact update_self _ _ _
    · exact (update_of_ne hl _ _).trans h.own_free

/-- A wait for a free lockable leads nowhere. -/
theorem not_leads_own (h : Sound own s) : ¬Leads s.next (.inr own) (.inl a) := by
  rw [← leadsFrom_holding, h.own_free]
  exact not_leadsFrom_none

/-- The wait of an actor that does not wait yet. -/
theorem hangmanWait_ends (h : Sound own s) (ha : s.waiting a = none) (l : L) :
    ∃ N, ∀ fuel, N ≤ fuel →
      (Leads s.next (.inr l) (.inl a) →
        hangmanWait fuel own s a l = .error (.panic "Deadlock.\n")) ∧
      (¬Leads s.next (.inr l) (.inl a) →
        hangmanWait fuel own s a l = .ok (if l = own then s else s.wait a l)) := by
  obtain ⟨N, hN⟩ := hangmanCheck_ends h.ends l a
  refine ⟨N, fun fuel hf => ?_⟩
  obtain ⟨hdead, hok⟩ := hN fuel hf
  unfold hangmanWait
  by_cases hl : l = own
  · subst hl
    rw [if_pos rfl, if_pos rfl]
    exact ⟨fun hleads => (h.not_leads_own hleads).elim, fun _ => rfl⟩
  · rw [if_neg hl, if_neg hl, if_neg (not_not.mpr ha)]
    refine ⟨fun hleads => ?_, fun hn => ?_⟩
    · rw [hdead hleads]
      rfl
    · rw [hok hn, ok_bind]

theorem step (h : Sound own s) {op : HangmanOp A L} (hs : HangmanStep own s op s') :
    Sound own s' := by
  cases hs with
  | wait hw =>
    unfold hangmanWait at hw
    split_ifs at hw with hl ha
    · exact Except.ok.inj hw ▸ h
    · obtain ⟨u, hu, hw⟩ := bind_eq_ok.mp hw
      exact Except.ok.inj hw ▸ h.wait (not_leads_of_hangmanCheck hu)
  | acquire ha =>
    unfold hangmanAcquire at ha
    split_ifs at ha with hl
    · exact Except.ok.inj ha ▸ h
    · exact Except.ok.inj ha ▸ h.hold hl
  | release hr =>
    unfold hangmanRelease at hr
    split_ifs at hr with hl
    · exact Except.ok.inj hr ▸ h
    · exact Except.ok.inj hr ▸ h.free

theorem of_run {tr : List (HangmanOp A L)} (h : Run (HangmanStep own) idle tr s) : Sound own s :=
  h.invariant sound_idle fun _ _ _ hs hstep => hs.step hstep

end Sound

end Hangman

/-- In every state that calls reach : the waits-for graph has no cycle; `hangman_check` ends, by
returning or by reporting a deadlock; and `hangman_wait` reports a deadlock exactly if the wait
would close a cycle, and otherwise returns. -/
theorem hangman_exact {own : L} {tr : List (HangmanOp A L)} {s : Hangman A L}
    (h : Run (HangmanStep own) Hangman.idle tr s) :
    ¬Cycle s.next ∧
    (∀ start target, ∃ N, ∀ fuel, N ≤ fuel → hangmanCheck fuel s start target = .ok () ∨
      hangmanCheck fuel s start target = .error (.panic "Deadlock.\n")) ∧
    ∀ a l, s.waiting a = none → ∃ N, ∀ fuel, N ≤ fuel →
      (Cycle (s.wait a l).next → hangmanWait fuel own s a l = .error (.panic "Deadlock.\n")) ∧
      (¬Cycle (s.wait a l).next →
        hangmanWait fuel own s a l = .ok (if l = own then s else s.wait a l)) := by
  have hs := Hangman.Sound.of_run h
  refine ⟨hs.ends.not_cycle, fun start target => ?_, fun a l ha => ?_⟩
  · obtain ⟨N, hN⟩ := Hangman.hangmanCheck_ends hs.ends start target
    refine ⟨N, fun fuel hf => ?_⟩
    by_cases hl : Leads s.next (.inr start) (.inl target)
    · exact Or.inr ((hN fuel hf).1 hl)
    · exact Or.inl ((hN fuel hf).2 hl)
  · have hiff : Cycle (s.wait a l).next ↔ Leads s.next (.inr l) (.inl a) := by
      rw [Hangman.next_wait]
      exact hs.ends.cycle_link_iff (by simp [Hangman.next, ha])
    rw [hiff]
    exact hs.hangmanWait_ends ha l

/-- Two actors hold one lockable each, and the first waits for that of the second. -/
def crossed : Hangman (Fin 2) (Fin 3) :=
  ((((Hangman.idle.wait 0 0).hold 0 0).wait 1 1).hold 1 1).wait 0 1

theorem crossed_reached : ∃ tr, Run (HangmanStep 2) Hangman.idle tr crossed := by
  have h₀ : Run (HangmanStep 2) Hangman.idle [] (Hangman.idle : Hangman (Fin 2) (Fin 3)) := .start
  have h₁ := h₀.snoc (.wait (show hangmanWait 2 2 _ 0 0 = .ok _ from rfl))
  have h₂ := h₁.snoc (.acquire (show hangmanAcquire 2 _ 0 0 = .ok _ from rfl))
  have h₃ := h₂.snoc (.wait (show hangmanWait 2 2 _ 1 1 = .ok _ from rfl))
  have h₄ := h₃.snoc (.acquire (show hangmanAcquire 2 _ 1 1 = .ok _ from rfl))
  exact ⟨_, h₄.snoc (.wait (show hangmanWait 2 2 _ 0 1 = .ok _ from rfl))⟩

theorem cycle_crossed : Cycle (crossed.wait 1 0).next := by
  have h₁ : Edge (crossed.wait 1 0).next (.inl 0) (.inr 1) := rfl
  have h₂ : Edge (crossed.wait 1 0).next (.inr 1) (.inl 1) := rfl
  have h₃ : Edge (crossed.wait 1 0).next (.inl 1) (.inr 0) := rfl
  have h₄ : Edge (crossed.wait 1 0).next (.inr 0) (.inl 0) := rfl
  exact ⟨.inl 0, .head h₁ (.head h₂ (.head h₃ (.single h₄)))⟩

/-- The second wait of the pair is reported. -/
theorem hangman_exact_crossed : ¬Cycle crossed.next ∧
    ∃ N, ∀ fuel, N ≤ fuel → hangmanWait fuel 2 crossed 1 0 = .error (.panic "Deadlock.\n") := by
  obtain ⟨tr, hrun⟩ := crossed_reached
  obtain ⟨hacyclic, -, hwait⟩ := hangman_exact hrun
  obtain ⟨N, hN⟩ := hwait 1 0 rfl
  exact ⟨hacyclic, N, fun fuel hf => (hN fuel hf).1 cycle_crossed⟩

end OS161
