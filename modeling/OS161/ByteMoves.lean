import OS161.Basic
import Mathlib.Data.List.Zip
import Mathlib.Data.List.Range

/-!
# Lists of moves in a memory

A memory is a function from addresses to contents. `placeAll old ps now` performs the moves of `ps`
on `now`, first one first; each destination receives what its source holds in `old`. If no move
overwrites a source of a later one, the moves may be performed in several lots, each with the
memory that the lots before it have left (`placeAll_append_self`).

`placeAll_zip_range'` : the moves of a block of consecutive addresses are `moveBytes`. A loop that
moves a block element by element in place, upwards or downwards, moves it as a whole if it reads
every element before it overwrites it (`countUp_eq`, `countDown_eq`).
-/

namespace OS161

open Function

section Moves

variable {α β : Type*} [DecidableEq α] {old old' now : α → β} {ps qs : List (α × α)} {x : α}

/-- The memory `now` after the moves `(source, destination)` of what the sources hold in `old`. -/
def placeAll (old : α → β) : List (α × α) → (α → β) → α → β
  | [], now => now
  | p :: ps, now => placeAll old ps (update now p.2 (old p.1))

@[simp] theorem placeAll_nil : placeAll old [] now = now :=
  rfl

theorem placeAll_cons {p : α × α} :
    placeAll old (p :: ps) now = placeAll old ps (update now p.2 (old p.1)) :=
  rfl

theorem placeAll_append :
    placeAll old (ps ++ qs) now = placeAll old qs (placeAll old ps now) := by
  induction ps generalizing now with
  | nil => rfl
  | cons p ps ih => exact ih

/-- Only the sources are read. -/
theorem placeAll_congr (h : ∀ p ∈ ps, old p.1 = old' p.1) :
    placeAll old ps now = placeAll old' ps now := by
  induction ps generalizing now with
  | nil => rfl
  | cons p ps ih =>
    rw [placeAll_cons, placeAll_cons, h p List.mem_cons_self]
    exact ih fun q hq => h q (List.mem_cons_of_mem p hq)

/-- Only the destinations change. -/
theorem placeAll_of_ne (h : ∀ p ∈ ps, p.2 ≠ x) : placeAll old ps now x = now x := by
  induction ps generalizing now with
  | nil => rfl
  | cons p ps ih =>
    rw [placeAll_cons, ih fun q hq => h q (List.mem_cons_of_mem p hq)]
    exact update_of_ne (h p List.mem_cons_self).symm _ _

/-- What the destinations receive. -/
theorem map_placeAll : ∀ {src dst : List α} {now : α → β}, dst.Nodup → src.length = dst.length →
    dst.map (placeAll old (src.zip dst) now) = src.map old
  | [], [], _, _, _ => rfl
  | s :: src, d :: dst, now, hnd, hlen => by
    obtain ⟨hd, hnd⟩ := List.nodup_cons.mp hnd
    rw [List.zip_cons_cons, placeAll_cons, List.map_cons, List.map_cons,
      map_placeAll hnd (Nat.succ.inj hlen), placeAll_of_ne, update_self]
    rintro p hp rfl
    exact hd (List.of_mem_zip hp).2

/-- Two lots of moves, of which the first does not overwrite a source of the second. -/
theorem placeAll_append_self (h : ∀ p ∈ ps, ∀ q ∈ qs, p.2 ≠ q.1) :
    placeAll (placeAll old ps old) qs (placeAll old ps old) = placeAll old (ps ++ qs) old := by
  rw [placeAll_append]
  refine placeAll_congr fun q hq => ?_
  exact placeAll_of_ne fun p hp => h p hp q hq

end Moves

/-! ## Blocks of consecutive addresses -/

section Blocks

variable {src src' dst : ℕ → UInt8} {offset offset' start len a b w n : ℕ}

theorem moveBytes_zero : moveBytes src offset dst start 0 = dst := by
  funext x
  exact if_neg (by omega)

theorem moveBytes_one : moveBytes src offset dst start 1 = update dst start (src offset) := by
  funext x
  unfold moveBytes
  by_cases hx : x = start
  · rw [if_pos (by omega), hx, update_self, Nat.sub_self, Nat.add_zero]
  · rw [if_neg (by omega), update_of_ne hx]

/-- Only the source is read. -/
theorem moveBytes_congr (h : ∀ x < len, src (offset + x) = src' (offset' + x)) :
    moveBytes src offset dst start len = moveBytes src' offset' dst start len := by
  funext x
  unfold moveBytes
  split_ifs with hx
  · exact h _ (by omega)
  · rfl

/-- Two parts of a block, the lower one first. -/
theorem moveBytes_add :
    moveBytes src (offset + a) (moveBytes src offset dst start a) (start + a) b =
      moveBytes src offset dst start (a + b) := by
  funext x
  unfold moveBytes
  split_ifs with h1 h2 h3 h4 h5
  · congr 1
    omega
  · omega
  · rfl
  · omega
  · omega
  · rfl

/-- Moving one byte more. -/
theorem moveBytes_succ : moveBytes src offset dst start (len + 1) =
    update (moveBytes src offset dst start len) (start + len) (src (offset + len)) := by
  rw [← moveBytes_add, moveBytes_one]

/-- The two parts may be moved in any order. -/
theorem moveBytes_comm :
    moveBytes src offset (moveBytes src (offset + a) dst (start + a) b) start a =
      moveBytes src offset dst start (a + b) := by
  rw [← moveBytes_add]
  funext x
  unfold moveBytes
  split_ifs with h1 h2
  · omega
  · rfl
  · rfl
  · rfl

/-- The moves of consecutive addresses. -/
theorem placeAll_zip_range' (old : ℕ → UInt8) (src dst len : ℕ) (now : ℕ → UInt8) :
    placeAll old ((List.range' src len).zip (List.range' dst len)) now =
      moveBytes old src now dst len := by
  induction len generalizing src dst now with
  | zero => exact moveBytes_zero.symm
  | succ len ih =>
    rw [List.range'_succ, List.range'_succ, List.zip_cons_cons, placeAll_cons, ih, ← moveBytes_one,
      moveBytes_add, Nat.add_comm]

/-! ## Loops that move one element after the other -/

/-- `for (i=0; i<n; i++)`. -/
def countUp {μ : Type*} (body : μ → ℕ → μ) : ℕ → μ → μ
  | 0, m => m
  | n + 1, m => body (countUp body n m) n

/-- `for (i=n; i>0; i--)`, with the index `i - 1`. -/
def countDown {μ : Type*} (body : μ → ℕ → μ) : ℕ → μ → μ
  | 0, m => m
  | n + 1, m => countDown body n (body m n)

variable {body : (ℕ → UInt8) → ℕ → ℕ → UInt8} {s d : ℕ}

/-- Upwards, no element is overwritten before it is read if the destination begins below the
source, or behind its end. -/
theorem countUp_eq
    (hbody : ∀ i < n, ∀ m, body m i = moveBytes m (s + w * i) m (d + w * i) w)
    (h : d ≤ s ∨ s + w * n ≤ d) (m : ℕ → UInt8) :
    countUp body n m = moveBytes m s m d (w * n) := by
  induction n with
  | zero => exact moveBytes_zero.symm
  | succ n ih =>
    rw [Nat.mul_succ] at h ⊢
    rw [countUp, hbody n n.lt_succ_self, ih (fun i hi => hbody i (hi.trans n.lt_succ_self))
      (by omega),
      ← moveBytes_add]
    refine moveBytes_congr fun x hx => ?_
    exact if_neg (by omega)

/-- Downwards, no element is overwritten before it is read if the destination begins at the
source or above. -/
theorem countDown_eq
    (hbody : ∀ i < n, ∀ m, body m i = moveBytes m (s + w * i) m (d + w * i) w)
    (h : s ≤ d) (m : ℕ → UInt8) : countDown body n m = moveBytes m s m d (w * n) := by
  induction n generalizing m with
  | zero => exact moveBytes_zero.symm
  | succ n ih =>
    rw [countDown, ih (fun i hi => hbody i (hi.trans n.lt_succ_self)), hbody n n.lt_succ_self,
      Nat.mul_succ, ← moveBytes_comm]
    refine moveBytes_congr fun x hx => ?_
    exact if_neg (by omega)

end Blocks

end OS161
