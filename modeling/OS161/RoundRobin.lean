import Mathlib.Data.List.Basic
import Mathlib.Data.List.Count
import Mathlib.Data.Nat.Basic
import Mathlib.Tactic.Common

/-!
# Round robin

A cursor goes around the positions `0 .. n - 1` and stops at the first one that is eligible;
what is eligible may be different each time. `lap n v f` counts the positions the cursor
passes over on its way from `v` to `f`; the way from `v` back to `v` is the longest.
`FirstAfter` is the choice, and `Turns` a sequence of choices, newest first.

The cursor cannot pass over a position that is eligible. So between two choices of `a`, every
other `b` that was eligible all the time is chosen at least once (`Turns.exists_between`), and
exactly once if `a` was eligible all the time too (`Turns.count_between`).
-/

namespace OS161

variable {n v a b f : ℕ}

/-! ## One choice -/

/-- The number of positions strictly between `v` and `f`, going up from `v` and around. -/
def lap (n v f : ℕ) : ℕ :=
  if v < f then f - v - 1 else f + n - v - 1

theorem lap_lt (hv : v < n) (hf : f < n) : lap n v f < n := by
  unfold lap
  split_ifs <;> omega

theorem lap_inj (hv : v < n) (ha : a < n) (hb : b < n) (h : lap n v a = lap n v b) : a = b := by
  unfold lap at h
  split_ifs at h <;> omega

/-- On the way from `v` to `b`, the cursor is nearer to `b` once it has come to `f`. -/
theorem lap_lt_of_lap_le (hv : v < n) (hf : f < n) (hb : b < n) (hne : f ≠ b)
    (h : lap n v f ≤ lap n v b) : lap n f b < lap n v b := by
  unfold lap at h ⊢
  split_ifs at h ⊢ <;> omega

/-- After `lap n v f` steps over other positions the cursor steps onto `f`. -/
theorem add_lap_mod (hv : v < n) (hf : f < n) : (v + 1 + lap n v f) % n = f := by
  unfold lap
  split_ifs with h
  · rw [show v + 1 + (f - v - 1) = f by omega, Nat.mod_eq_of_lt hf]
  · rw [show v + 1 + (f + n - v - 1) = f + n by omega, Nat.add_mod_right, Nat.mod_eq_of_lt hf]

theorem lap_add_mod {j : ℕ} (hv : v < n) (hj : j < n) : lap n v ((v + 1 + j) % n) = j := by
  have hlt : (v + 1 + j) % n < n := Nat.mod_lt _ (by omega)
  have h := add_lap_mod hv hlt
  rcases Nat.lt_or_ge (v + 1 + j) n with hs | hs
  · rw [Nat.mod_eq_of_lt hs] at h ⊢
    unfold lap
    split_ifs <;> omega
  · rw [Nat.mod_eq_sub_mod hs, Nat.mod_eq_of_lt (by omega)]
    unfold lap
    split_ifs <;> omega

/-- `f` is the first eligible position strictly after `v`, and `v` itself comes last. -/
structure FirstAfter (n v : ℕ) (eligible : ℕ → Bool) (f : ℕ) : Prop where
  lt : f < n
  mem : eligible f = true
  least : ∀ g < n, eligible g = true → lap n v f ≤ lap n v g

theorem FirstAfter.unique {eligible : ℕ → Bool} (hv : v < n) (ha : FirstAfter n v eligible a)
    (hb : FirstAfter n v eligible b) : a = b :=
  lap_inj hv ha.lt hb.lt (le_antisymm (ha.least b hb.lt hb.mem) (hb.least a ha.lt ha.mem))

/-- The cursor comes back to where it was only if nothing else is eligible. -/
theorem FirstAfter.eq_of_self {eligible : ℕ → Bool} (h : FirstAfter n v eligible v) (ha : a < n)
    (hel : eligible a = true) : a = v := by
  have hle := h.least a ha hel
  have hv := h.lt
  unfold lap at hle
  split_ifs at hle <;> omega

/-! ## Sequences of choices -/

/-- A choice, with what was eligible at the time. -/
structure Turn where
  eligible : ℕ → Bool
  chosen : ℕ

/-- Where the cursor is after the choices of a list, newest first. -/
def cursor (v : ℕ) : List Turn → ℕ
  | [] => v
  | x :: _ => x.chosen

/-- The choices of a list, newest first, each with what was eligible, from cursor `v` on. -/
def Turns (n v : ℕ) : List Turn → Prop
  | [] => True
  | x :: l => FirstAfter n (cursor v l) x.eligible x.chosen ∧ Turns n v l

namespace Turns

variable {x y : Turn} {l m m' : List Turn}

theorem of_append : ∀ {m : List Turn}, Turns n v (m ++ l) → Turns n v l
  | [], h => h
  | _ :: _, h => of_append h.2

theorem cursor_lt (hv : v < n) (h : Turns n v l) : cursor v l < n := by
  cases l with
  | nil => exact hv
  | cons x l => exact h.1.lt

/-- While `b` is eligible and not chosen, each choice brings the cursor nearer to `b`. -/
theorem lap_cursor (hv : v < n) (hb : b < n) :
    ∀ {m : List Turn}, Turns n v (m ++ l) → (∀ x ∈ m, x.eligible b = true ∧ x.chosen ≠ b) →
      lap n (cursor v (m ++ l)) b + m.length ≤ lap n (cursor v l) b
  | [], _, _ => le_rfl
  | x :: m, h, hm => by
    replace h : FirstAfter n (cursor v (m ++ l)) x.eligible x.chosen ∧ Turns n v (m ++ l) := h
    obtain ⟨hel, hne⟩ := hm x List.mem_cons_self
    have ih := lap_cursor hv hb h.2 fun y hy => hm y (List.mem_cons_of_mem x hy)
    have hcl := cursor_lt hv h.2
    have hstep := lap_lt_of_lap_le hcl h.1.lt hb hne (h.1.least b hb hel)
    change lap n x.chosen b + (m.length + 1) ≤ _
    omega

/-- Between two choices of one position, another that was eligible is chosen. -/
theorem exists_between (hv : v < n) (h : Turns n v (y :: (m ++ x :: l))) (hxy : x.chosen = y.chosen)
    (hb : b < n) (hne : b ≠ y.chosen) (hyb : y.eligible b = true)
    (hm : ∀ z ∈ m, z.eligible b = true) :
    ∃ z ∈ m, z.chosen = b := by
  by_contra hno
  push Not at hno
  have hall : ∀ z ∈ y :: m, z.eligible b = true ∧ z.chosen ≠ b := by
    intro z hz
    rcases List.mem_cons.mp hz with rfl | hz
    · exact ⟨hyb, hne.symm⟩
    · exact ⟨hm z hz, hno z hz⟩
  have hlap := lap_cursor (m := y :: m) hv hb h hall
  -- The cursor is where it was, and nearer to `b` than it was.
  change lap n y.chosen b + (m.length + 1) ≤ lap n x.chosen b at hlap
  rw [hxy] at hlap
  omega

/-- Between two choices of `a` with no other choice of `a` between them, and `a` eligible all
the time, every other position that was eligible all the time is chosen exactly once. -/
theorem count_between (hv : v < n) (h : Turns n v (y :: (m ++ x :: l))) (hx : x.chosen = a)
    (hy : y.chosen = a) (ha : ∀ z ∈ m, z.eligible a = true) (hno : ∀ z ∈ m, z.chosen ≠ a)
    (hb : b < n)
    (hne : b ≠ a) (hyb : y.eligible b = true) (hm : ∀ z ∈ m, z.eligible b = true) :
    (m.map Turn.chosen).count b = 1 := by
  subst hy
  have hya : y.chosen < n := h.1.lt
  obtain ⟨z, hz, hzb⟩ := exists_between hv h hx hb hne hyb hm
  obtain ⟨p, q, rfl⟩ := List.append_of_mem hz
  -- Two choices of `b` would have one of `a` between them.
  have honce : ∀ {p q r : List Turn} {z z' : Turn},
      Turns n v (p ++ z' :: (q ++ z :: r)) → z'.eligible y.chosen = true →
        (∀ w ∈ q, w.eligible y.chosen = true) →
      (∀ w ∈ q, w.chosen ≠ y.chosen) → z.chosen = b → z'.chosen ≠ b := by
    intro p q r z z' ht hel hq hqno hzb hzb'
    obtain ⟨w, hw, hwa⟩ := exists_between hv ht.of_append (hzb.trans hzb'.symm) hya
      (hzb' ▸ hne.symm) hel hq
    exact hqno w hw hwa
  have hp : b ∉ p.map Turn.chosen := by
    intro hmem
    obtain ⟨w, hw, hwb⟩ := List.mem_map.mp hmem
    obtain ⟨p₁, p₂, rfl⟩ := List.append_of_mem hw
    have ht : Turns n v ((y :: p₁) ++ w :: (p₂ ++ z :: (q ++ x :: l))) := by
      simpa [List.append_assoc] using h
    exact honce ht (ha w (by simp)) (fun u hu => ha u (by simp [hu]))
      (fun u hu => hno u (by simp [hu])) hzb hwb
  have hq : b ∉ q.map Turn.chosen := by
    intro hmem
    obtain ⟨w, hw, hwb⟩ := List.mem_map.mp hmem
    obtain ⟨q₁, q₂, rfl⟩ := List.append_of_mem hw
    have ht : Turns n v ((y :: p) ++ z :: (q₁ ++ w :: (q₂ ++ x :: l))) := by
      simpa [List.append_assoc] using h
    exact honce ht (ha z (by simp)) (fun u hu => ha u (by simp [hu]))
      (fun u hu => hno u (by simp [hu])) hwb hzb
  simp [List.map_append, List.count_append, List.count_eq_zero.mpr hp, List.count_eq_zero.mpr hq,
    hzb]

end Turns

end OS161
