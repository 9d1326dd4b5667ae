import Mathlib.Tactic.Common
import Mathlib.Tactic.Ring
import Mathlib.Logic.Function.Basic
import Mathlib.Data.Set.Basic

/-!
# Tilings of an array by blocks

An allocator of contiguous runs marks the cells of an array `0 .. n - 1` in use and
records, at the first cell of each run it hands out, the run's length; every other cell
records length `0`. `Tiled n used size` says that the records describe the marks : the
cells in use are exactly those of the blocks `[h, h + size h)`, the blocks lie inside the
array, and a cell inside a block records no length of its own. Two blocks with different
heads are then disjoint (`Tiled.disjoint`).

Handing out a run of free cells (`Tiled.take`) and returning a block (`Tiled.release`)
keep the tiling. `StartsAt` is the set of cells at which a left-to-right scan that skips
over whole blocks can stop; such a scan never lands inside a block
(`Tiled.startsAt_skip`, `Tiled.startsAt_succ`).

`BlockCover` asks less : the lengths are right at a given set of heads, and the other cells may
record anything. With the other records cleared it is a tiling (`BlockCover.tiled`).
-/

namespace OS161

open Function

variable {n : ℕ} {used : ℕ → Bool} {size : ℕ → ℕ}

/-- The cells in use are the disjoint union of the blocks `[h, h + size h)`. -/
structure Tiled (n : ℕ) (used : ℕ → Bool) (size : ℕ → ℕ) : Prop where
  free_size : ∀ f < n, used f = false → size f = 0
  bound : ∀ h < n, h + size h ≤ n
  inner : ∀ h < n, ∀ f, h < f → f < h + size h → used f = true ∧ size f = 0
  cover : ∀ f < n, used f = true → ∃ h ≤ f, f < h + size h

namespace Tiled

/-- The head of a block is in use. -/
theorem used_of_size (t : Tiled n used size) {h : ℕ} (hn : h < n) (hs : 0 < size h) :
    used h = true := by
  by_contra hu
  have := t.free_size h hn (by simpa using hu)
  omega

/-- Every cell of a block is in use. -/
theorem used_of_mem (t : Tiled n used size) {h f : ℕ} (hn : h < n) (hf : h ≤ f)
    (hlt : f < h + size h) : used f = true := by
  rcases Nat.eq_or_lt_of_le hf with rfl | hlt'
  · exact t.used_of_size hn (by omega)
  · exact (t.inner h hn f hlt' hlt).1

/-- The head of a block lies in no other block. -/
theorem head_le (t : Tiled n used size) {h h' : ℕ} (hn : h < n) (hne : h ≠ h')
    (hs' : 0 < size h') (hle : h ≤ h') : h + size h ≤ h' := by
  by_contra hlt
  have := (t.inner h hn h' (by omega) (by omega)).2
  omega

/-- Blocks with different heads are disjoint. -/
theorem disjoint (t : Tiled n used size) {h h' : ℕ} (hn : h < n) (hn' : h' < n) (hne : h ≠ h')
    (hs : 0 < size h) (hs' : 0 < size h') : h + size h ≤ h' ∨ h' + size h' ≤ h := by
  rcases Nat.le_total h h' with hle | hle
  · exact Or.inl (t.head_le hn hne hs' hle)
  · exact Or.inr (t.head_le hn' hne.symm hs hle)

/-- A cell lies in at most one block. -/
theorem head_unique (t : Tiled n used size) {h h' f : ℕ} (hn : h < n) (hn' : h' < n)
    (hf : h ≤ f ∧ f < h + size h) (hf' : h' ≤ f ∧ f < h' + size h') : h = h' := by
  by_contra hne
  rcases t.disjoint hn hn' hne (by omega) (by omega) with h1 | h1 <;> omega

/-- The records depend only on the cells of the array. -/
theorem congr (t : Tiled n used size) {used' : ℕ → Bool} {size' : ℕ → ℕ}
    (hu : ∀ f < n, used' f = used f) (hs : ∀ f < n, size' f = size f) :
    Tiled n used' size' where
  free_size f hf h := by
    rw [hs f hf]
    exact t.free_size f hf (by rwa [hu f hf] at h)
  bound h hh := by
    rw [hs h hh]
    exact t.bound h hh
  inner h hh f hlt hlt' := by
    rw [hs h hh] at hlt'
    have hfn : f < n := lt_of_lt_of_le hlt' (t.bound h hh)
    rw [hu f hfn, hs f hfn]
    exact t.inner h hh f hlt hlt'
  cover f hf h := by
    obtain ⟨g, hg, hg'⟩ := t.cover f hf (by rwa [hu f hf] at h)
    exact ⟨g, hg, by rwa [hs g (by omega)]⟩

/-! ## Handing out and returning blocks -/

/-- Hand out the free run `[b, b + k)`. -/
theorem take (t : Tiled n used size) {b k : ℕ} (hk : 0 < k) (hb : b + k ≤ n)
    (hfree : ∀ f, b ≤ f → f < b + k → used f = false) :
    Tiled n (fun f => if b ≤ f ∧ f < b + k then true else used f)
      (update size b k) where
  free_size f hf h := by
    by_cases hin : b ≤ f ∧ f < b + k
    · simp [hin] at h
    · rw [if_neg hin] at h
      rw [update_of_ne (by omega)]
      exact t.free_size f hf h
  bound h hh := by
    by_cases hb' : h = b
    · subst hb'
      simpa using hb
    · rw [update_of_ne hb']
      exact t.bound h hh
  inner h hh f hlt hlt' := by
    by_cases hb' : h = b
    · subst hb'
      rw [update_self] at hlt'
      rw [if_pos ⟨by omega, hlt'⟩, update_of_ne (by omega)]
      exact ⟨rfl, t.free_size f (by omega) (hfree f (by omega) hlt')⟩
    · rw [update_of_ne hb'] at hlt'
      obtain ⟨hu, hs⟩ := t.inner h hh f hlt hlt'
      have hne : ¬(b ≤ f ∧ f < b + k) := by
        rintro ⟨h1, h2⟩
        rw [hfree f h1 h2] at hu
        simp at hu
      rw [if_neg hne, update_of_ne (by omega)]
      exact ⟨hu, hs⟩
  cover f hf h := by
    by_cases hin : b ≤ f ∧ f < b + k
    · exact ⟨b, hin.1, by rw [update_self]; exact hin.2⟩
    · rw [if_neg hin] at h
      obtain ⟨g, hg, hg'⟩ := t.cover f hf h
      have hgb : g ≠ b := by
        rintro rfl
        have := t.free_size g (by omega) (hfree g le_rfl (by omega))
        omega
      exact ⟨g, hg, by rwa [update_of_ne hgb]⟩

/-- Return the block at `h`. -/
theorem release (t : Tiled n used size) {h : ℕ} (hn : h < n) :
    Tiled n (fun f => if h ≤ f ∧ f < h + size h then false else used f)
      (update size h 0) where
  free_size f hf hu := by
    by_cases hfh : f = h
    · subst hfh
      simp
    · rw [update_of_ne hfh]
      by_cases hin : h ≤ f ∧ f < h + size h
      · exact (t.inner h hn f (by omega) hin.2).2
      · rw [if_neg hin] at hu
        exact t.free_size f hf hu
  bound g hg := by
    by_cases hgh : g = h
    · subst hgh
      simpa using hn.le
    · rw [update_of_ne hgh]
      exact t.bound g hg
  inner g hg f hlt hlt' := by
    by_cases hgh : g = h
    · subst hgh
      simp only [update_self] at hlt'
      omega
    · rw [update_of_ne hgh] at hlt'
      obtain ⟨hu, hs⟩ := t.inner g hg f hlt hlt'
      have hfh : f = h ∨ f ≠ h := eq_or_ne f h
      have hout : ¬(h ≤ f ∧ f < h + size h) := fun hin =>
        hgh (t.head_unique hg hn ⟨hlt.le, hlt'⟩ hin)
      rw [if_neg hout]
      refine ⟨hu, ?_⟩
      rcases hfh with rfl | hne
      · simp
      · rw [update_of_ne hne]
        exact hs
  cover f hf hu := by
    by_cases hin : h ≤ f ∧ f < h + size h
    · simp [hin] at hu
    · rw [if_neg hin] at hu
      obtain ⟨g, hg, hg'⟩ := t.cover f hf hu
      have hgh : g ≠ h := by
        rintro rfl
        exact hin ⟨hg, hg'⟩
      exact ⟨g, hg, by rwa [update_of_ne hgh]⟩

/-! ## Scanning over blocks -/

/-- `e` is a head, a free cell or the end of the array : no block crosses it. -/
def StartsAt (n : ℕ) (size : ℕ → ℕ) (e : ℕ) : Prop :=
  ∀ h < n, h < e → h + size h ≤ e

theorem startsAt_zero : StartsAt n size 0 := fun h _ hlt => absurd hlt (Nat.not_lt_zero h)

/-- At a cell in use where no block crosses, a block starts. -/
theorem size_pos_of_startsAt (t : Tiled n used size) {e : ℕ} (he : StartsAt n size e)
    (hn : e < n) (hu : used e = true) : 0 < size e := by
  obtain ⟨h, hle, hlt⟩ := t.cover e hn hu
  rcases Nat.eq_or_lt_of_le hle with rfl | hlt'
  · omega
  · have := he h (by omega) hlt'
    omega

/-- Skipping the block at `e` lands where no block crosses. -/
theorem startsAt_skip (t : Tiled n used size) {e : ℕ} (he : StartsAt n size e) (hn : e < n) :
    StartsAt n size (e + size e) := by
  intro h hh hlt
  rcases Nat.lt_trichotomy h e with hlt' | rfl | hgt
  · have := he h hh hlt'
    omega
  · exact le_rfl
  · have := (t.inner e hn h hgt hlt).2
    omega

/-- Stepping over a free cell lands where no block crosses. -/
theorem startsAt_succ (t : Tiled n used size) {e : ℕ} (he : StartsAt n size e) (hn : e < n)
    (hu : used e = false) : StartsAt n size (e + 1) := by
  intro h hh hlt
  rcases Nat.lt_or_ge h e with hlt' | hge
  · have := he h hh hlt'
    omega
  · obtain rfl : h = e := by omega
    have := t.free_size h hn hu
    omega

end Tiled

/-! ## Heads -/

/-- The cells in use are the disjoint union of the blocks `[h, h + size h)` with `h` in
`heads`. -/
structure BlockCover (n : ℕ) (used : ℕ → Bool) (size : ℕ → ℕ) (heads : Set ℕ) : Prop where
  pos : ∀ h ∈ heads, 0 < size h
  bound : ∀ h ∈ heads, h + size h ≤ n
  used_iff : ∀ f < n, used f = true ↔ ∃ h ∈ heads, h ≤ f ∧ f < h + size h
  disjoint : ∀ h ∈ heads, ∀ h' ∈ heads, h < h' → h + size h ≤ h'

open Classical in
/-- The lengths at the heads, and `0` elsewhere. -/
noncomputable def headSize (heads : Set ℕ) (size : ℕ → ℕ) (f : ℕ) : ℕ :=
  if f ∈ heads then size f else 0

namespace BlockCover

variable {heads : Set ℕ}

theorem headSize_pos {f : ℕ} (hf : 0 < headSize heads size f) :
    f ∈ heads ∧ headSize heads size f = size f := by
  unfold headSize at hf ⊢
  split_ifs at hf ⊢ with hm
  · exact ⟨hm, rfl⟩
  · omega

theorem tiled (c : BlockCover n used size heads) : Tiled n used (headSize heads size) where
  free_size f hf hu := by
    by_contra h0
    obtain ⟨hm, -⟩ := headSize_pos (Nat.pos_of_ne_zero h0)
    have := (c.used_iff f hf).mpr ⟨f, hm, le_rfl, Nat.lt_add_of_pos_right (c.pos f hm)⟩
    rw [hu] at this
    cases this
  bound h hh := by
    by_cases hm : h ∈ heads
    · rw [headSize, if_pos hm]
      exact c.bound h hm
    · rw [headSize, if_neg hm]
      exact hh.le
  inner h hh f hlt hlt' := by
    have hpos : 0 < headSize heads size h := by omega
    obtain ⟨hm, hs⟩ := headSize_pos hpos
    rw [hs] at hlt'
    refine ⟨(c.used_iff f (lt_of_lt_of_le hlt' (c.bound h hm))).mpr ⟨h, hm, hlt.le, hlt'⟩, ?_⟩
    by_contra h0
    have := c.disjoint h hm f (headSize_pos (Nat.pos_of_ne_zero h0)).1 hlt
    omega
  cover f hf hu := by
    obtain ⟨h, hm, hle, hlt⟩ := (c.used_iff f hf).mp hu
    refine ⟨h, hle, ?_⟩
    rwa [headSize, if_pos hm]

end BlockCover

end OS161
