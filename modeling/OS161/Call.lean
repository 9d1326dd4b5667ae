import OS161.Outcome

/-!
# Calls that return an error code

A function of a kernel takes the state along, and does one of three things : it stops the
machine, it returns a value, or it returns an error code. In the last two cases it leaves a
state behind. `Call η ε σ α` is the type of such functions, and its bind is the `if (result)
return result;` of the source : an error code ends the sequence and keeps the state reached.
Code that cleans up after an error looks at the outcome of a call with `attempt`.

`m.Does ok s Q` is the specification of a call from the state `s` : it stops only for a
reason `ok` allows, and otherwise `Q` holds of the outcome and the state left behind.
`Does.bind` puts the specification of a sequence together from those of its parts, and
`Does.forEach` that of a loop from an invariant over the elements that are left.
`m.Reports P` is the weaker statement that from any state the error code, if there is one, is
one of those in `P`.
-/

namespace OS161

/-- A function that stops, or leaves a state with a value or an error code. -/
def Call (η ε σ α : Type) : Type :=
  σ → Except η (Except ε α × σ)

namespace Call

variable {η ε σ α β : Type} {a : α} {r : Except ε α} {g : σ → Call η ε σ β} {s' : σ}

/-! ## The operations -/

instance : Monad (Call η ε σ) where
  pure a := fun s => .ok (.ok a, s)
  bind m f := fun s =>
    match m s with
    | .ok (.ok a, s') => f a s'
    | .ok (.error e, s') => .ok (.error e, s')
    | .error h => .error h

/-- Return an error code. -/
def fail (e : ε) : Call η ε σ α :=
  fun s => .ok (.error e, s)

/-- Stop the machine. -/
def stop (h : η) : Call η ε σ α :=
  fun _ => .error h

/-- The state. -/
def get : Call η ε σ σ :=
  fun s => .ok (.ok s, s)

/-- Change the state. -/
def modify (f : σ → σ) : Call η ε σ Unit :=
  fun s => .ok (.ok (), f s)

/-- A computation that does not look at the state. -/
def lift (x : Except η α) : Call η ε σ α :=
  fun s => x >>= fun a => .ok (.ok a, s)

/-- Run a call and hand its outcome to what follows. -/
def attempt (m : Call η ε σ α) : Call η ε σ (Except ε α) :=
  fun s => m s >>= fun r => .ok (.ok r.1, r.2)

/-- Return an outcome that was seen before. -/
def report : Except ε α → Call η ε σ α
  | .ok a => pure a
  | .error e => fail e

/-- The body for each element of a list, in order, until an error. -/
def forEach (body : β → Call η ε σ Unit) : List β → Call η ε σ Unit
  | [] => pure ()
  | b :: l => body b >>= fun _ => forEach body l

/-! ## Specifications -/

/-- From `s` the call stops only for a reason `ok` allows, and `Q` holds of what it returns
and of the state it leaves. -/
def Does (ok : η → Prop) (m : Call η ε σ α) (s : σ) (Q : Except ε α → σ → Prop) : Prop :=
  Meets ok (fun r => Q r.1 r.2) (m s)

variable {ok : η → Prop} {m : Call η ε σ α} {f : α → Call η ε σ β} {s : σ}
  {P : Except ε α → σ → Prop} {Q : Except ε β → σ → Prop}

@[simp] theorem does_pure : (pure a : Call η ε σ α).Does ok s P ↔ P (.ok a) s :=
  Iff.rfl

@[simp] theorem does_fail {e : ε} : (fail e : Call η ε σ α).Does ok s P ↔ P (.error e) s :=
  Iff.rfl

@[simp] theorem does_report :
    (report r : Call η ε σ α).Does ok s P ↔ P r s := by
  cases r <;> exact Iff.rfl

theorem does_get_bind :
    (get >>= g).Does ok s Q ↔ (g s).Does ok s Q :=
  Iff.rfl

theorem does_modify_bind {h : σ → σ} {g : Unit → Call η ε σ β} :
    (modify h >>= g).Does ok s Q ↔ (g ()).Does ok (h s) Q :=
  Iff.rfl

/-- A call that returns the value `a` and the state `s'`. -/
theorem does_of_eq (h : m s = .ok (r, s')) (hP : P r s') :
    m.Does ok s P := by
  unfold Does
  rw [h]
  exact hP

theorem does_congr {m' : Call η ε σ α} (h : m s = m' s') :
    m.Does ok s P ↔ m'.Does ok s' P := by
  unfold Does
  rw [h]

theorem bind_apply : (m >>= f) s = match m s with
    | .ok (.ok a, s') => f a s'
    | .ok (.error e, s') => .ok (.error e, s')
    | .error h => .error h :=
  rfl

theorem bind_of_ok (h : m s = .ok (.ok a, s')) : (m >>= f) s = f a s' := by
  rw [bind_apply, h]

theorem bind_of_error {e : ε} (h : m s = .ok (.error e, s')) :
    (m >>= f) s = .ok (.error e, s') := by
  rw [bind_apply, h]

theorem bind_of_stop {h : η} (hm : m s = .error h) : (m >>= f) s = .error h := by
  rw [bind_apply, hm]

/-- A sequence that returns a value. -/
theorem exists_of_bind_ok {b : β} (h : (m >>= f) s = .ok (.ok b, s')) :
    ∃ a s₁, m s = .ok (.ok a, s₁) ∧ f a s₁ = .ok (.ok b, s') := by
  rcases hm : m s with e | ⟨e | a, s₁⟩
  · rw [bind_of_stop hm] at h
    cases h
  · rw [bind_of_error hm] at h
    cases h
  · rw [bind_of_ok hm] at h
    exact ⟨a, s₁, rfl, h⟩

theorem get_bind_apply : (get >>= g) s = g s s :=
  rfl

theorem modify_bind_apply {h : σ → σ} {g : Unit → Call η ε σ β} :
    (modify h >>= g) s = g () (h s) :=
  rfl

/-- A loop with one round. -/
theorem forEach_singleton {body : β → Call η ε σ Unit} {b : β} :
    forEach body [b] s = body b s := by
  rcases hb : body b s with h | ⟨e | a, s'⟩
  · exact bind_of_stop hb
  · exact bind_of_error hb
  · exact bind_of_ok hb

/-- A sequence whose first part returns the value `a`. -/
theorem does_bind_of_ok (h : m s = .ok (.ok a, s')) :
    (m >>= f).Does ok s Q ↔ (f a).Does ok s' Q := by
  unfold Does
  rw [bind_of_ok h]

/-- A sequence whose first part returns an error code. -/
theorem does_bind_of_error {e : ε} (h : m s = .ok (.error e, s')) :
    (m >>= f).Does ok s Q ↔ Q (.error e) s' := by
  unfold Does
  rw [bind_of_error h]
  exact Iff.rfl

theorem does_lift_bind {x : Except η α} (hx : x = .ok a) :
    (lift x >>= f).Does ok s Q ↔ (f a).Does ok s Q := by
  subst hx
  exact Iff.rfl

/-- A call that has been evaluated, as far as `g` shows it. -/
theorem exists_of_eval {γ : Type*} {g : α → σ → γ} {c : γ}
    (h : ((m s).toOption.bind fun r => r.1.toOption.map fun a => g a r.2) = some c) :
    ∃ a s', m s = .ok (.ok a, s') ∧ g a s' = c := by
  obtain ⟨⟨r, s'⟩, hr, hc⟩ := Option.bind_eq_some_iff.mp h
  obtain ⟨a, ha, rfl⟩ := Option.map_eq_some_iff.mp hc
  obtain rfl := eq_ok_of_toOption ha
  exact ⟨a, s', eq_ok_of_toOption hr, rfl⟩

theorem attempt_of_ok (h : m s = .ok (r, s')) :
    m.attempt s = .ok (.ok r, s') := by
  unfold attempt
  rw [h]
  rfl

theorem of_attempt_ok (h : m.attempt s = .ok (.ok r, s')) :
    m s = .ok (r, s') := by
  unfold attempt at h
  rcases hm : m s with e | x
  · rw [hm] at h
    cases h
  · rw [hm] at h
    cases h
    rfl

theorem does_attempt_bind {f : Except ε α → Call η ε σ β}
    (h : m s = .ok (r, s')) : (m.attempt >>= f).Does ok s Q ↔ (f r).Does ok s' Q :=
  does_bind_of_ok (attempt_of_ok h)

namespace Does

variable {R : Except ε α → σ → Prop}

theorem mono (h : m.Does ok s P) (hPR : ∀ r s', P r s' → R r s') :
    m.Does ok s R :=
  Meets.mono h fun r hr => hPR r.1 r.2 hr

/-- Sequential composition. -/
theorem bind (h : m.Does ok s P) (herr : ∀ e s', P (.error e) s' → Q (.error e) s')
    (hok : ∀ a s', P (.ok a) s' → (f a).Does ok s' Q) : (m >>= f).Does ok s Q := by
  change Meets ok (fun r => Q r.1 r.2) (match m s with
    | .ok (.ok a, s') => f a s'
    | .ok (.error e, s') => .ok (.error e, s')
    | .error h => .error h)
  unfold Does at h
  cases hm : m s with
  | error e =>
    rw [hm] at h
    exact h
  | ok r =>
    obtain ⟨r, s'⟩ := r
    rw [hm] at h
    cases r with
    | ok a => exact hok a s' h
    | error e => exact herr e s' h

/-- A computation that does not look at the state. -/
theorem lift_bind {x : Except η α} {R : α → Prop} (h : Meets ok R x)
    (hf : ∀ a, R a → (f a).Does ok s Q) : (lift x >>= f).Does ok s Q := by
  cases x with
  | ok a => exact hf a h
  | error e => exact h

/-- A call whose outcome is looked at. -/
theorem attempt_bind {f : Except ε α → Call η ε σ β} (h : m.Does ok s P)
    (hf : ∀ r s', P r s' → (f r).Does ok s' Q) : (m.attempt >>= f).Does ok s Q := by
  refine Does.bind (P := fun r s' => ∃ r', r = .ok r' ∧ P r' s') ?_ ?_ ?_
  · exact Meets.bind h fun r hr => ⟨r.1, rfl, hr⟩
  · rintro e s' ⟨r', hr, -⟩
    cases hr
  · rintro r s' ⟨r', hr, hP⟩
    cases hr
    exact hf _ _ hP

/-- The rule for loops : `I l s` is what holds when the elements `l` are left. -/
theorem forEach {body : β → Call η ε σ Unit} {I : List β → σ → Prop}
    {R : Except ε Unit → σ → Prop} (hbody : ∀ b l s, I (b :: l) s →
      (body b).Does ok s fun r s' => match r with
        | .ok _ => I l s'
        | .error e => R (.error e) s') (hnil : ∀ s, I [] s → R (.ok ()) s) :
    ∀ (l : List β) (s : σ), I l s → (Call.forEach body l).Does ok s R
  | [], s, h => hnil s h
  | b :: l, s, h =>
    (hbody b l s h).bind (fun _ _ he => he) fun _ s' hI => forEach hbody hnil l s' hI

/-- The rule for counting loops : `I j s` is what holds after `j` rounds. -/
theorem forRange {body : ℕ → Call η ε σ Unit} {I : ℕ → σ → Prop} {R : Except ε Unit → σ → Prop}
    {n : ℕ} (hbody : ∀ j < n, ∀ s, I j s → (body j).Does ok s fun r s' => match r with
      | .ok _ => I (j + 1) s'
      | .error e => R (.error e) s') (hend : ∀ s, I n s → R (.ok ()) s) (h : I 0 s) :
    (Call.forEach body (List.range n)).Does ok s R := by
  refine forEach (I := fun l s => ∃ j ≤ n, l = List.range' j (n - j) ∧ I j s) ?_ ?_ _ s
    ⟨0, Nat.zero_le n, List.range_eq_range', h⟩
  · rintro b l s ⟨j, hj, hl, hI⟩
    cases hk : n - j with
    | zero =>
      rw [hk] at hl
      cases hl
    | succ k =>
      rw [hk, List.range'_succ] at hl
      cases hl
      refine (hbody b (by omega) s hI).mono fun r s' hr => ?_
      cases r with
      | ok _ => exact ⟨b + 1, by omega, by rw [show n - (b + 1) = k by omega], hr⟩
      | error e => exact hr
  · rintro s ⟨j, hj, hl, hI⟩
    have : n - j = 0 := by simpa using hl
    obtain rfl : j = n := by omega
    exact hend s hI

/-- The run itself may be used to weaken the specification. -/
theorem of_run (h : m.Does ok s P)
    (hPR : ∀ r s', m s = .ok (r, s') → P r s' → R r s') : m.Does ok s R := by
  unfold Does at h ⊢
  rcases hm : m s with e | ⟨r, s'⟩
  · rw [hm] at h
    exact h
  · rw [hm] at h
    exact hPR r s' hm h

/-- Two specifications of one call. -/
theorem and {ok' : η → Prop} (h : m.Does ok s P)
    (h' : m.Does ok' s R) : m.Does ok s fun r s' => P r s' ∧ R r s' :=
  (Meets.and h h').mono fun _ hr => hr

/-- What a call that returns satisfies. -/
theorem of_ok {r : Except ε α} {s' : σ} (h : m.Does ok s P) (hm : m s = .ok (r, s')) :
    P r s' := by
  unfold Does at h
  rw [hm] at h
  exact h

/-- A call that does not stop returns. -/
theorem exists_ok (h : m.Does (fun _ => False) s P) :
    ∃ r s', m s = .ok (r, s') ∧ P r s' := by
  unfold Does at h
  rcases hm : m s with e | ⟨r, s'⟩
  · rw [hm] at h
    exact h.elim
  · rw [hm] at h
    exact ⟨r, s', rfl, h⟩

end Does

/-! ## The error codes of a call -/

/-- Whatever the state, an error code that the call returns is one in `P`. -/
def Reports (P : ε → Prop) (m : Call η ε σ α) : Prop :=
  ∀ s, m.Does (fun _ => True) s fun r _ => ∀ e, r = .error e → P e

namespace Reports

variable {C : ε → Prop} {m : Call η ε σ α} {f : α → Call η ε σ β}

protected theorem pure (a : α) : (pure a : Call η ε σ α).Reports C := by
  intro s e h
  cases h

theorem get : (get : Call η ε σ σ).Reports C := by
  intro s e h
  cases h

theorem modify (g : σ → σ) : (modify g : Call η ε σ Unit).Reports C := by
  intro s e h
  cases h

theorem stop (h : η) : (stop h : Call η ε σ α).Reports C :=
  fun _ => trivial

theorem fail {e : ε} (h : C e) : (fail e : Call η ε σ α).Reports C := by
  rintro s e' ⟨⟩
  exact h

theorem lift (x : Except η α) : (lift x : Call η ε σ α).Reports C := by
  intro s
  cases x with
  | ok a =>
    intro e h
    cases h
  | error h => trivial

/-- Sequential composition. -/
theorem bind (hm : m.Reports C) (hf : ∀ a, (f a).Reports C) : (m >>= f).Reports C := by
  intro s
  refine (hm s).bind ?_ fun a s' _ => hf a s'
  rintro e s' h e' ⟨⟩
  exact h e rfl

/-- A call whose outcome is looked at. -/
theorem attempt_bind {f : Except ε α → Call η ε σ β} (hm : m.Reports C)
    (hok : ∀ a, (f (.ok a)).Reports C) (herr : ∀ e, C e → (f (.error e)).Reports C) :
    (m.attempt >>= f).Reports C := by
  intro s
  refine (hm s).attempt_bind fun r s' h => ?_
  cases r with
  | ok a => exact hok a s'
  | error e => exact herr e (h e rfl) s'

end Reports

end Call

end OS161
