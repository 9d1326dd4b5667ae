import Mathlib.Data.List.ReduceOption
import Mathlib.Data.List.Nodup
import Mathlib.Logic.Function.Basic
import Mathlib.Order.Nat

/-!
# Tables with free slots

A table is a list of slots, some of which are free. An object keeps the number of its slot until
it is taken out, and a new one gets a free slot, or a new slot at the end if there is none.

`slot` reads a table as a function, which is `none` at the free slots and beyond the end. A write
to a slot, or to the one after the last, is a `update` of it (`slot_put`). The objects in
the table are `List.reduceOption` (`mem_reduceOption`).
-/

namespace OS161

open Function

namespace SlotTable

variable {α β : Type} {l l' : List (Option α)} {i j : ℕ} {a b : α} {x : Option α}

/-- What is in slot `i`. -/
def slot (l : List (Option α)) (i : ℕ) : Option α :=
  l[i]?.join

/-- The first free slot. -/
def firstFree (l : List (Option α)) : Option ℕ :=
  l.findIdx? Option.isNone

/-- Write to a slot, or to a new one after the last. -/
def put (l : List (Option α)) (i : ℕ) (x : Option α) : List (Option α) :=
  if i < l.length then l.set i x else l ++ [x]

@[simp] theorem slot_nil : slot ([] : List (Option α)) i = none :=
  rfl

@[simp] theorem slot_cons_zero : slot (x :: l) 0 = x := by
  simp [slot]

@[simp] theorem slot_cons_succ : slot (x :: l) (i + 1) = slot l i := by
  simp [slot]

theorem slot_eq_some_iff : slot l i = some a ↔ l[i]? = some (some a) := by
  exact Option.join_eq_some_iff

theorem slot_of_le (h : l.length ≤ i) : slot l i = none := by
  rw [slot, List.getElem?_eq_none h]
  rfl

theorem lt_of_slot (h : slot l i = some a) : i < l.length := by
  by_contra hle
  rw [slot_of_le (not_lt.mp hle)] at h
  cases h

theorem slot_set (hi : i < l.length) : slot (l.set i x) = update (slot l) i x := by
  funext j
  by_cases hj : j = i
  · subst hj
    simp [slot, hi]
  · rw [update_of_ne hj, slot, List.getElem?_set_ne (Ne.symm hj), slot]

theorem slot_concat : slot (l ++ [x]) = update (slot l) l.length x := by
  funext j
  by_cases hj : j = l.length
  · subst hj
    simp [slot]
  · rw [update_of_ne hj]
    rcases lt_or_gt_of_ne hj with hlt | hgt
    · rw [slot, List.getElem?_append_left hlt, slot]
    · rw [slot_of_le (by rw [List.length_append]; exact hgt), slot_of_le hgt.le]

theorem slot_put (hi : i ≤ l.length) : slot (put l i x) = update (slot l) i x := by
  unfold put
  split_ifs with hlt
  · exact slot_set hlt
  · obtain rfl : i = l.length := le_antisymm hi (not_lt.mp hlt)
    exact slot_concat

theorem length_put_le : (put l i x).length ≤ l.length + 1 := by
  unfold put
  split_ifs
  · rw [List.length_set]
    exact Nat.le_succ _
  · exact List.length_append.le

theorem lt_length_put (hi : i ≤ l.length) : i < (put l i x).length := by
  unfold put
  split_ifs with hlt
  · rwa [List.length_set]
  · rw [List.length_append, List.length_singleton]
    omega

theorem update_some_eq_some {f : ℕ → Option α} : update f i (some a) j = some b ↔
    j = i ∧ b = a ∨ j ≠ i ∧ f j = some b := by
  by_cases hj : j = i
  · subst hj
    simp [eq_comm]
  · simp [hj]

theorem update_none_eq_some {f : ℕ → Option α} : update f i none j = some b ↔
    j ≠ i ∧ f j = some b := by
  by_cases hj : j = i
  · subst hj
    simp
  · simp [hj]

/-- A write that puts back what was there. -/
theorem slot_update_restore {f : ℕ → Option α} (h : f i = none) :
    update (update f i x) i none = f := by
  rw [update_idem, ← h, update_eq_self]

theorem firstFree_some (h : firstFree l = some i) : i < l.length ∧ slot l i = none := by
  obtain ⟨hi, hnone, -⟩ := List.findIdx?_eq_some_iff_getElem.mp h
  refine ⟨hi, ?_⟩
  rw [slot, List.getElem?_eq_getElem hi]
  exact Option.isNone_iff_eq_none.mp hnone

/-! ## The objects -/

theorem mem_reduceOption : a ∈ l.reduceOption ↔ ∃ i, slot l i = some a := by
  rw [List.reduceOption_mem_iff, List.mem_iff_getElem?]
  simp only [slot_eq_some_iff]

/-- Objects that are told apart by their slots are in the table once. -/
theorem nodup_map_reduceOption {f : α → β}
    (h : ∀ i j a b, slot l i = some a → slot l j = some b → f a = f b → i = j) :
    (l.reduceOption.map f).Nodup := by
  induction l with
  | nil => exact List.nodup_nil
  | cons x l ih =>
    have htail : (l.reduceOption.map f).Nodup := by
      refine ih fun i j a b hi hj he => ?_
      exact Nat.succ.inj (h (i + 1) (j + 1) a b (by simpa using hi) (by simpa using hj) he)
    cases x with
    | none => exact htail
    | some a =>
      rw [List.reduceOption_cons_of_some, List.map_cons, List.nodup_cons]
      refine ⟨fun hmem => ?_, htail⟩
      obtain ⟨b, hb, he⟩ := List.mem_map.mp hmem
      obtain ⟨i, hi⟩ := mem_reduceOption.mp hb
      exact absurd (h 0 (i + 1) a b slot_cons_zero (by simpa using hi) he.symm) (by omega)

/-- The objects from one slot on, and those before it. -/
theorem reduceOption_split (l : List (Option α)) (n : ℕ) :
    l.reduceOption = (l.take n).reduceOption ++ (l.drop n).reduceOption := by
  rw [← List.reduceOption_append, List.take_append_drop]

theorem reduceOption_eq_nil : l.reduceOption = [] ↔ ∀ i, slot l i = none := by
  constructor
  · intro h i
    cases hs : slot l i with
    | none => rfl
    | some a =>
      have := mem_reduceOption.mpr ⟨i, hs⟩
      rw [h] at this
      cases this
  · intro h
    refine List.eq_nil_iff_forall_not_mem.mpr fun a ha => ?_
    obtain ⟨i, hi⟩ := mem_reduceOption.mp ha
    rw [h i] at hi
    cases hi

theorem slot_drop : slot (l.drop i) j = slot l (i + j) := by
  rw [slot, List.getElem?_drop, slot]

theorem slot_take : slot (l.take i) j = if j < i then slot l j else none := by
  rw [slot, List.getElem?_take]
  split_ifs <;> rfl

end SlotTable

end OS161
