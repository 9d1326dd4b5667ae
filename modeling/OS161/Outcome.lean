import Mathlib.Tactic.Common

/-!
# Outcomes with a postcondition

A computation that may stop is a value of `Except ε α`. `Meets ok Q x` says that `x`
returns a value satisfying `Q`, or stops for one of the reasons `ok` allows : a
postcondition and the exclusion of every other way to stop in one statement.
`Meets.bind` composes such statements along a `do` block, so that the specification of a
function is put together from those of the functions it calls, and none of them is
unfolded twice.

`Agree R x y` compares two computations : they stop for the same reason, or return values
that `R` relates. `Agree.meets` carries a postcondition of the one over to the other.
-/

namespace OS161

universe u v

variable {ε : Type u} {α β : Type v} {ok : ε → Prop}

/-- `x` returns a value satisfying `Q`, or stops for a reason `ok` allows. -/
def Meets (ok : ε → Prop) (Q : α → Prop) : Except ε α → Prop
  | .ok a => Q a
  | .error e => ok e

namespace Meets

variable {P Q : α → Prop} {x : Except ε α}

@[simp] theorem ok_iff {a : α} : Meets ok Q (.ok a : Except ε α) ↔ Q a :=
  Iff.rfl

@[simp] theorem error_iff {e : ε} : Meets ok Q (.error e : Except ε α) ↔ ok e :=
  Iff.rfl

@[simp] theorem pure_iff {a : α} : Meets ok Q (pure a : Except ε α) ↔ Q a :=
  Iff.rfl

@[simp] theorem throw_iff {e : ε} : Meets ok Q (throw e : Except ε α) ↔ ok e :=
  Iff.rfl

theorem mono (h : Meets ok P x) (hPQ : ∀ a, P a → Q a) : Meets ok Q x := by
  cases x with
  | ok a => exact hPQ a h
  | error e => exact h

theorem weaken {ok' : ε → Prop} (h : Meets ok Q x) (hok : ∀ e, ok e → ok' e) :
    Meets ok' Q x := by
  cases x with
  | ok a => exact h
  | error e => exact hok e h

/-- Sequential composition. -/
theorem bind {f : α → Except ε β} {R : β → Prop} (h : Meets ok P x)
    (hf : ∀ a, P a → Meets ok R (f a)) : Meets ok R (x >>= f) := by
  cases x with
  | ok a => exact hf a h
  | error e => exact h

/-- A computation that meets `Q` and returns, returns a value satisfying `Q`. -/
theorem of_ok {a : α} (h : Meets ok Q x) (hx : x = .ok a) : Q a := by
  subst hx
  exact h

/-- A computation that meets a postcondition stops only for an allowed reason. -/
theorem of_error {e : ε} (h : Meets ok Q x) (hx : x = .error e) : ok e := by
  subst hx
  exact h

/-- A computation that never stops returns a value. -/
theorem exists_ok (h : Meets (fun _ => False) Q x) : ∃ a, x = .ok a := by
  cases x with
  | ok a => exact ⟨a, rfl⟩
  | error e => exact h.elim

/-- What can be said of every computation. -/
theorem any (x : Except ε α) : Meets (fun _ => True) (fun _ => True) x := by
  cases x <;> trivial

/-- Two statements about one computation, which stops for the reasons of the first. -/
theorem and {ok' : ε → Prop} (h : Meets ok P x) (h' : Meets ok' Q x) :
    Meets ok (fun a => P a ∧ Q a) x := by
  cases x with
  | ok a => exact ⟨h, h'⟩
  | error e => exact h

end Meets

/-- `x` and `y` stop for the same reason, or return values that `R` relates. -/
def Agree (R : α → β → Prop) : Except ε α → Except ε β → Prop
  | .ok a, .ok b => R a b
  | .error e, .error e' => e = e'
  | _, _ => False

namespace Agree

variable {R : α → β → Prop} {x : Except ε α} {y : Except ε β}

/-- Sequential composition. -/
theorem bind {γ δ : Type v} {S : γ → δ → Prop} {f : α → Except ε γ} {g : β → Except ε δ}
    (h : Agree R x y) (hf : ∀ a b, R a b → Agree S (f a) (g b)) :
    Agree S (x >>= f) (y >>= g) := by
  cases x <;> cases y
  · exact h
  · exact h.elim
  · exact h.elim
  · exact hf _ _ h

theorem mono {S : α → β → Prop} (h : Agree R x y) (hRS : ∀ a b, R a b → S a b) :
    Agree S x y := by
  cases x <;> cases y
  · exact h
  · exact h.elim
  · exact h.elim
  · exact hRS _ _ h

theorem of_ok {b : β} (h : Agree R x y) (hy : y = .ok b) : ∃ a, x = .ok a ∧ R a b := by
  subst hy
  cases x with
  | ok a => exact ⟨a, rfl, h⟩
  | error e => exact h.elim

/-- What the one computation guarantees, the other does up to `R`. -/
theorem meets {P : α → Prop} (h : Agree R x y) (hx : Meets ok P x) :
    Meets ok (fun b => ∃ a, P a ∧ R a b) y := by
  cases x <;> cases y
  · exact h ▸ hx
  · exact h.elim
  · exact h.elim
  · exact ⟨_, hx, h⟩

end Agree

@[simp] theorem ok_bind (a : α) (f : α → Except ε β) : (.ok a : Except ε α) >>= f = f a :=
  rfl

@[simp] theorem error_bind (e : ε) (f : α → Except ε β) :
    (.error e : Except ε α) >>= f = .error e :=
  rfl

theorem eq_ok_of_toOption {x : Except ε α} {a : α} (h : x.toOption = some a) : x = .ok a := by
  cases x with
  | ok b => exact congrArg _ (Option.some.inj h)
  | error e => cases h

/-- A guarded step of an execution was allowed and returned. -/
theorem ok_of_guard {p : Prop} [Decidable p] {x : Except ε α} {a : α}
    (h : (if p then x.toOption else none) = some a) : p ∧ x = .ok a := by
  split_ifs at h with hp
  exact ⟨hp, eq_ok_of_toOption h⟩

theorem ok_of_guard_map {p : Prop} [Decidable p] {x : Except ε α} {f : α → β} {b : β}
    (h : (if p then x.toOption.map f else none) = some b) : p ∧ ∃ a, x = .ok a ∧ f a = b := by
  split_ifs at h with hp
  obtain ⟨a, ha, hb⟩ := Option.map_eq_some_iff.mp h
  exact ⟨hp, a, eq_ok_of_toOption ha, hb⟩

/-- A sequence returns exactly when both parts do. -/
theorem bind_eq_ok {x : Except ε α} {f : α → Except ε β} {b : β} :
    x >>= f = .ok b ↔ ∃ a, x = .ok a ∧ f a = .ok b := by
  cases x with
  | ok a =>
    constructor
    · intro h
      exact ⟨a, rfl, h⟩
    · rintro ⟨a', ha, h⟩
      cases ha
      exact h
  | error e =>
    constructor
    · intro h
      cases h
    · rintro ⟨a', ha, -⟩
      cases ha

end OS161
