import Mathlib.Data.List.DropRight
import Mathlib.Data.List.GetD
import Mathlib.Data.Nat.Digits.Lemmas

/-!
# Numerals

A number is written in a base with the digits of a table, the most significant one first. `numeral`
is the shortest such text, and `numeralValue` reads a text back, if it has digits of the base only.

`numeralValue_pad` : zeros before a numeral do not change its value, and `k` zeros after it multiply
it by `base ^ k`. `strip_pad` : other padding can be taken off.
-/

namespace OS161

namespace Numeral

section Strip

variable {α : Type} [DecidableEq α] {pad : α} {body : List α}

/-- The text without the padding around it. -/
def strip (pad : α) (text : List α) : List α :=
  (text.dropWhile (· = pad)).rdropWhile (· = pad)

theorem dropWhile_pad (hne : body ≠ []) (h : pad ∉ body) (k : ℕ) (text : List α) :
    (List.replicate k pad ++ (body ++ text)).dropWhile (· = pad) = body ++ text := by
  obtain ⟨c, body, rfl⟩ := List.exists_cons_of_ne_nil hne
  have hc : c ≠ pad := fun hc => h (hc ▸ List.mem_cons_self)
  rw [List.dropWhile_append_of_pos fun d hd => by simpa using List.eq_of_mem_replicate hd]
  exact List.dropWhile_cons_of_neg (by simpa using hc)

theorem strip_pad (hne : body ≠ []) (h : pad ∉ body) (a b : ℕ) :
    strip pad (List.replicate a pad ++ body ++ List.replicate b pad) = body := by
  have hback := dropWhile_pad (mt List.reverse_eq_nil_iff.mp hne)
    (mt List.mem_reverse.mp h) b ([] : List α)
  rw [strip, List.append_assoc, dropWhile_pad hne h, List.rdropWhile, List.reverse_append,
    List.reverse_replicate, ← List.append_nil body.reverse, hback, List.append_nil,
    List.reverse_reverse]

end Strip

variable {α : Type} [Inhabited α] {table : List α} {base n k : ℕ} {c : α}

/-- The digit for `d`. -/
def digitOf (table : List α) (d : ℕ) : α :=
  table.getD d default

/-- The numeral for `n`; the one for `0` has a digit as well. -/
def numeral (table : List α) (base n : ℕ) : List α :=
  if n = 0 then [digitOf table 0] else ((Nat.digits base n).map (digitOf table)).reverse

/-- The number that the digits stand for. -/
def numeralValue [DecidableEq α] (table : List α) (base : ℕ) (ds : List α) : Option ℕ :=
  if ds ≠ [] ∧ ∀ c ∈ ds, table.idxOf c < base then
    some (Nat.ofDigits base (ds.map table.idxOf).reverse)
  else none

theorem digitOf_mem {d : ℕ} (hd : d < table.length) : digitOf table d ∈ table := by
  rw [digitOf, List.getD_eq_getElem _ _ hd]
  exact List.getElem_mem hd

theorem idxOf_digitOf [DecidableEq α] {d : ℕ} (ht : table.Nodup) (hd : d < table.length) :
    table.idxOf (digitOf table d) = d := by
  rw [digitOf, List.getD_eq_getElem _ _ hd]
  exact ht.idxOf_getElem d hd

theorem numeral_ne_nil : numeral table base n ≠ [] := by
  unfold numeral
  split_ifs with h
  · exact List.cons_ne_nil _ _
  · simpa [Nat.digits_ne_nil_iff_ne_zero] using h

/-- A digit as a numeral. -/
theorem numeral_of_lt (hn : n < base) : numeral table base n = [digitOf table n] := by
  unfold numeral
  split_ifs with h
  · rw [h]
  · rw [Nat.digits_of_lt base n h hn]
    rfl

/-- The last digit of a numeral, and the numeral before it. -/
theorem numeral_of_le (hb : 1 < base) (hn : base ≤ n) :
    numeral table base n = numeral table base (n / base) ++ [digitOf table (n % base)] := by
  have hpos : 0 < n := by omega
  have hdiv : n / base ≠ 0 := (Nat.div_pos hn (by omega)).ne'
  rw [numeral, if_neg hpos.ne', numeral, if_neg hdiv, Nat.digits_def' hb hpos, List.map_cons,
    List.reverse_cons]

theorem length_numeral_le (hb : 1 < base) (hk : 0 < k) (hn : n < base ^ k) :
    (numeral table base n).length ≤ k := by
  unfold numeral
  split_ifs with h
  · exact hk
  · rw [List.length_reverse, List.length_map]
    exact (Nat.digits_length_le_iff hb n).mpr hn

section Value

variable [DecidableEq α] (ht : table.Nodup) (hb : 1 < base) (hle : base ≤ table.length)

include ht hb hle

theorem mem_numeral (hc : c ∈ numeral table base n) : c ∈ table ∧ table.idxOf c < base := by
  have hdigit : ∀ d < base, digitOf table d ∈ table ∧ table.idxOf (digitOf table d) < base := by
    intro d hd
    have hlt := hd.trans_le hle
    exact ⟨digitOf_mem hlt, (idxOf_digitOf ht hlt).trans_lt hd⟩
  unfold numeral at hc
  split_ifs at hc with h
  · rw [List.mem_singleton.mp hc]
    exact hdigit 0 (by omega)
  · obtain ⟨d, hd, rfl⟩ := List.mem_map.mp (List.mem_reverse.mp hc)
    exact hdigit d (Nat.digits_lt_base hb hd)

theorem ofDigits_numeral :
    Nat.ofDigits base ((numeral table base n).map table.idxOf).reverse = n := by
  unfold numeral
  split_ifs with h
  · simp [idxOf_digitOf ht (show 0 < table.length by omega), h]
  · rw [List.map_reverse, List.reverse_reverse, List.map_map]
    have hmap : (Nat.digits base n).map (table.idxOf ∘ digitOf table) = Nat.digits base n := by
      refine (List.map_congr_left fun d hd => ?_).trans (List.map_id _)
      exact idxOf_digitOf ht ((Nat.digits_lt_base hb hd).trans_le hle)
    rw [hmap, Nat.ofDigits_digits]

/-- A numeral with zeros before and after it. -/
theorem numeralValue_pad (z k : ℕ) : numeralValue table base
    (List.replicate z (digitOf table 0) ++ numeral table base n ++
      List.replicate k (digitOf table 0)) = some (n * base ^ k) := by
  have hzero : table.idxOf (digitOf table 0) = 0 := idxOf_digitOf ht (by omega)
  have hreplicate : ∀ m, (List.replicate m (digitOf table 0)).map table.idxOf =
      List.replicate m 0 := by
    intro m
    rw [List.map_replicate, hzero]
  rw [numeralValue, if_pos]
  · rw [List.map_append, List.map_append, hreplicate, hreplicate, List.reverse_append,
      List.reverse_append, List.reverse_replicate, List.reverse_replicate, Nat.ofDigits_append,
      Nat.ofDigits_append_replicate_zero, ofDigits_numeral ht hb hle, Nat.ofDigits_replicate_zero,
      List.length_replicate, Nat.zero_add, Nat.mul_comm]
  · refine ⟨fun hnil => ?_, fun c hc => ?_⟩
    · simp only [List.append_eq_nil_iff] at hnil
      exact numeral_ne_nil hnil.1.2
    · rcases List.mem_append.mp hc with hc | hc
      · rcases List.mem_append.mp hc with hc | hc
        · rw [List.eq_of_mem_replicate hc, hzero]
          omega
        · exact (mem_numeral ht hb hle hc).2
      · rw [List.eq_of_mem_replicate hc, hzero]
        omega

end Value

end Numeral

end OS161
