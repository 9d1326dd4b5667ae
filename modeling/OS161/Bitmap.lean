import OS161.Basic

/-!
# `lib/bitmap.c`

A bitmap is an array of eight-bit words. `bitmap_alloc` looks for the first word that is
not full, then for the first clear bit of that word; the bits of the last word past
`nbits` are set by `bitmap_create`, so that the search cannot return them.

The abstract view is the set of marked bits (`Bitmap.Marked`). `Bitmap.WF` says that the
padding is set; every operation keeps it. `bitmapAlloc_spec` : an allocation marks the
least clear bit and nothing else, and reports a full map exactly when every bit below
`nbits` is marked. `bitmapMark_spec` and `bitmapUnmark_spec` : marking a clear bit and clearing
a marked one change that bit only.
-/

namespace OS161

open Function

/-- `BITS_PER_WORD`. -/
def bitsPerWord : ℕ :=
  8

/-- `struct bitmap`. -/
structure Bitmap where
  nbits : ℕ
  v : ℕ → BitVec 8

/-- `((WORD_TYPE)1) << offset`. -/
def wordMask (offset : ℕ) : BitVec 8 :=
  1#8 <<< offset

namespace Bitmap

/-- The number of words, `DIVROUNDUP(nbits, BITS_PER_WORD)`. -/
def maxix (b : Bitmap) : ℕ :=
  divroundup b.nbits bitsPerWord

end Bitmap

/-- The word with the bits from `overbits` up set, as the loop at the end of
`bitmap_create` leaves it. -/
def leftoverWord (overbits : ℕ) : BitVec 8 :=
  (List.range' overbits (bitsPerWord - overbits)).foldl (fun w j => w ||| wordMask j) 0#8

/-- `bitmap_create`, for a number of bits whose round-up does not wrap and with memory
for the array. -/
def bitmapCreate (nbits : ℕ) : Bitmap where
  nbits := nbits
  v ix :=
    let words := divroundup nbits bitsPerWord
    if nbits / bitsPerWord < words ∧ ix = words - 1 then
      leftoverWord (nbits - ix * bitsPerWord)
    else 0#8

/-- `bitmap_isset`. -/
def bitmapIsset (b : Bitmap) (index : ℕ) : Bool :=
  b.v (index / bitsPerWord) &&& wordMask (index % bitsPerWord) != 0#8

/-- `bitmap_alloc` : the index found, or `none` for `ENOSPC`. -/
def bitmapAlloc (b : Bitmap) : Except Halt (Option (ℕ × Bitmap)) :=
  match (List.range b.maxix).find? fun ix => b.v ix ≠ 0xff#8 with
  | none => .ok none
  | some ix =>
    match (List.range bitsPerWord).find? fun offset => b.v ix &&& wordMask offset = 0#8 with
    | none => .error (.kassert "0")
    | some offset => do
      let index := ix * bitsPerWord + offset
      kassert (index < b.nbits) "*index < b->nbits"
      .ok (some (index, { b with v := update b.v ix (b.v ix ||| wordMask offset) }))

/-- `bitmap_mark`. -/
def bitmapMark (b : Bitmap) (index : ℕ) : Except Halt Bitmap := do
  kassert (index < b.nbits) "index < b->nbits"
  let ix := index / bitsPerWord
  let mask := wordMask (index % bitsPerWord)
  kassert (b.v ix &&& mask = 0#8) "(b->v[ix] & mask)==0"
  .ok { b with v := update b.v ix (b.v ix ||| mask) }

/-- `bitmap_unmark`. -/
def bitmapUnmark (b : Bitmap) (index : ℕ) : Except Halt Bitmap := do
  kassert (index < b.nbits) "index < b->nbits"
  let ix := index / bitsPerWord
  let mask := wordMask (index % bitsPerWord)
  kassert (b.v ix &&& mask ≠ 0#8) "(b->v[ix] & mask)!=0"
  .ok { b with v := update b.v ix (b.v ix &&& ~~~mask) }

/-! ## Single words -/

/-- A test with a mask of one bit. -/
theorem and_shiftLeft_eq_zero {n : ℕ} {w : BitVec n} {j : ℕ} (hj : j < n) :
    w &&& 1#n <<< j = 0#n ↔ w.getLsbD j = false := by
  rw [← BitVec.twoPow_eq, BitVec.and_twoPow]
  cases h : w.getLsbD j with
  | false => simp
  | true =>
    simp only [if_true, Bool.true_eq_false, iff_false]
    intro h0
    have := congrArg (fun x => x.getLsbD j) h0
    simp [hj] at this

theorem getLsbD_or_shiftLeft {n : ℕ} {w : BitVec n} {i j : ℕ} (hj : j < n) :
    (w ||| 1#n <<< j).getLsbD i = (w.getLsbD i || decide (j = i)) := by
  rw [← BitVec.twoPow_eq, BitVec.getLsbD_or, BitVec.getLsbD_twoPow]
  simp [hj]

theorem getLsbD_and_not_shiftLeft {n : ℕ} {w : BitVec n} {i j : ℕ} (hi : i < n) (hj : j < n) :
    (w &&& ~~~(1#n <<< j)).getLsbD i = (w.getLsbD i && decide (j ≠ i)) := by
  rw [← BitVec.twoPow_eq, BitVec.getLsbD_and, BitVec.getLsbD_not, BitVec.getLsbD_twoPow]
  simp [hi, hj]

theorem eq_allOnes_iff {n : ℕ} {w : BitVec n} :
    w = BitVec.allOnes n ↔ ∀ j < n, w.getLsbD j = true := by
  constructor
  · rintro rfl j hj
    simp [hj]
  · intro h
    apply BitVec.eq_of_getLsbD_eq
    intro j hj
    rw [h j hj]
    simp [hj]

theorem and_wordMask_eq_zero {w : BitVec 8} {j : ℕ} (hj : j < 8) :
    w &&& wordMask j = 0#8 ↔ w.getLsbD j = false :=
  and_shiftLeft_eq_zero hj

theorem getLsbD_or_wordMask {w : BitVec 8} {i j : ℕ} (hj : j < 8) :
    (w ||| wordMask j).getLsbD i = (w.getLsbD i || decide (j = i)) :=
  getLsbD_or_shiftLeft hj

theorem getLsbD_and_not_wordMask {w : BitVec 8} {i j : ℕ} (hi : i < 8) (hj : j < 8) :
    (w &&& ~~~wordMask j).getLsbD i = (w.getLsbD i && decide (j ≠ i)) :=
  getLsbD_and_not_shiftLeft hi hj

theorem getLsbD_foldl_or (i : ℕ) : ∀ (l : List ℕ) (w : BitVec 8), (∀ j ∈ l, j < 8) →
    (l.foldl (fun w j => w ||| wordMask j) w).getLsbD i = (w.getLsbD i || decide (i ∈ l))
  | [], w, _ => by simp
  | j :: l, w, h => by
    rw [List.foldl_cons, getLsbD_foldl_or i l _ fun j hj => h j (by simp [hj]),
      getLsbD_or_wordMask (h j (by simp))]
    simp only [List.mem_cons, Bool.decide_or, Bool.or_assoc, eq_comm]

/-- A word with every bit set is `WORD_ALLBITS`. -/
theorem eq_allBits_iff {w : BitVec 8} : w = 0xff#8 ↔ ∀ j < 8, w.getLsbD j = true :=
  eq_allOnes_iff

/-! ## The set of marked bits -/

namespace Bitmap

/-- Bit `i` of the map is set. -/
def Marked (b : Bitmap) (i : ℕ) : Prop :=
  bitmapIsset b i = true

/-- The padding bits of the last word are set. -/
def WF (b : Bitmap) : Prop :=
  ∀ i, b.nbits ≤ i → i < b.maxix * bitsPerWord → b.Marked i

variable {b b' : Bitmap} {i j : ℕ}

instance : Decidable (b.Marked i) :=
  inferInstanceAs (Decidable (_ = _))

theorem marked_full (n i : ℕ) : Marked ⟨n, fun _ => 0xff#8⟩ i := by
  have h : ∀ j < 8, (0xff#8 &&& wordMask j != 0#8) = true := by decide
  exact h (i % 8) (Nat.mod_lt _ (by decide))

theorem marked_iff : b.Marked i ↔ (b.v (i / 8)).getLsbD (i % 8) = true := by
  have hj : i % 8 < 8 := Nat.mod_lt _ (by decide)
  have h := and_wordMask_eq_zero (w := b.v (i / 8)) hj
  rw [Marked, bitmapIsset, bitsPerWord, bne_iff_ne, ne_eq, h]
  simp

theorem marked_word {ix off : ℕ} (hoff : off < 8) :
    b.Marked (ix * 8 + off) ↔ (b.v ix).getLsbD off = true := by
  have h1 : (ix * 8 + off) / 8 = ix := by omega
  have h2 : (ix * 8 + off) % 8 = off := by omega
  rw [marked_iff, h1, h2]

theorem lt_maxix (hi : i < b.nbits) : i / 8 < b.maxix := by
  unfold maxix divroundup bitsPerWord
  omega

end Bitmap

theorem getLsbD_leftoverWord {k j : ℕ} (hj : j < 8) :
    (leftoverWord k).getLsbD j = decide (k ≤ j) := by
  unfold leftoverWord bitsPerWord
  rw [getLsbD_foldl_or j _ _ fun i hi => by rw [List.mem_range'_1] at hi; omega]
  simp only [BitVec.getLsbD_zero, Bool.false_or, List.mem_range'_1]
  rw [decide_eq_decide]
  omega

theorem bitmapCreate_word (nbits ix : ℕ) : (bitmapCreate nbits).v ix =
    if nbits / 8 < (nbits + 7) / 8 ∧ ix = (nbits + 7) / 8 - 1 then leftoverWord (nbits - ix * 8)
    else 0#8 :=
  rfl

/-- A fresh map has no bit below `nbits` marked. -/
theorem not_marked_bitmapCreate {nbits i : ℕ} (hi : i < nbits) :
    ¬(bitmapCreate nbits).Marked i := by
  rw [Bitmap.marked_iff, bitmapCreate_word]
  split_ifs with h
  · rw [getLsbD_leftoverWord (Nat.mod_lt _ (by decide))]
    simp only [decide_eq_true_eq, not_le]
    omega
  · simp

/-- A fresh map has its padding set. -/
theorem bitmapCreate_wf (nbits : ℕ) : (bitmapCreate nbits).WF := by
  intro i hn hi
  change nbits ≤ i at hn
  change i < (nbits + 7) / 8 * 8 at hi
  rw [Bitmap.marked_iff, bitmapCreate_word, if_pos (by omega),
    getLsbD_leftoverWord (Nat.mod_lt _ (by decide))]
  simp only [decide_eq_true_eq]
  omega

/-! ## Allocation and release -/

theorem marked_set {b : Bitmap} {ix off i : ℕ} (hoff : off < 8) :
    Bitmap.Marked { b with v := update b.v ix (b.v ix ||| wordMask off) } i ↔
      b.Marked i ∨ i = ix * 8 + off := by
  rw [Bitmap.marked_iff, Bitmap.marked_iff]
  by_cases h : i / 8 = ix
  · subst h
    simp only [update_self, getLsbD_or_wordMask hoff, Bool.or_eq_true, decide_eq_true_eq]
    refine or_congr_right ?_
    omega
  · simp only [update_of_ne h]
    have : ¬i = ix * 8 + off := by omega
    simp [this]

theorem marked_clear {b : Bitmap} {i j : ℕ} :
    Bitmap.Marked
        { b with v := update b.v (j / 8) (b.v (j / 8) &&& ~~~wordMask (j % 8)) } i ↔
      b.Marked i ∧ i ≠ j := by
  have hj : j % 8 < 8 := Nat.mod_lt _ (by decide)
  have hi : i % 8 < 8 := Nat.mod_lt _ (by decide)
  rw [Bitmap.marked_iff, Bitmap.marked_iff]
  by_cases h : i / 8 = j / 8
  · rw [h]
    simp only [update_self, getLsbD_and_not_wordMask hi hj, Bool.and_eq_true,
      decide_eq_true_eq]
    refine and_congr_right fun _ => ?_
    omega
  · simp only [update_of_ne h]
    have : i ≠ j := by
      rintro rfl
      exact h rfl
    simp [this]

/-- What an allocation returns : the least clear bit, now marked, or nothing when every
bit is marked. -/
def AllocPost (b : Bitmap) : Option (ℕ × Bitmap) → Prop
  | none => ∀ i < b.nbits, b.Marked i
  | some (index, b') => index < b.nbits ∧ ¬b.Marked index ∧ (∀ i < index, b.Marked i) ∧
      b'.nbits = b.nbits ∧ b'.WF ∧ ∀ i, b'.Marked i ↔ b.Marked i ∨ i = index

/-- `bitmap_alloc` on a well-formed map fails no assertion, marks the least clear bit
and reports a full map only if it is full. -/
theorem bitmapAlloc_spec {b : Bitmap} (hb : b.WF) :
    Meets (fun _ => False) (AllocPost b) (bitmapAlloc b) := by
  unfold bitmapAlloc
  cases hf : (List.range b.maxix).find? fun ix => b.v ix ≠ 0xff#8 with
  | none =>
    intro i hi
    have h := List.find?_eq_none.mp hf (i / 8) (List.mem_range.mpr (Bitmap.lt_maxix hi))
    simp only [ne_eq, decide_not, Bool.not_eq_true', decide_eq_false_iff_not, not_not] at h
    rw [Bitmap.marked_iff]
    exact eq_allBits_iff.mp h _ (Nat.mod_lt _ (by decide))
  | some ix =>
    obtain ⟨hix, -, hlt⟩ := List.find?_range_eq_some.mp hf
    simp only [ne_eq, decide_not, Bool.not_eq_eq_eq_not, Bool.not_true, decide_eq_false_iff_not,
      Bool.not_not, decide_eq_true_eq] at hix hlt
    have hmax : ix < b.maxix := List.mem_range.mp (List.mem_of_find?_eq_some hf)
    -- The words before `ix` are full, so every bit below `ix * 8` is marked.
    have hbefore : ∀ i < ix * 8, b.Marked i := fun i hi => by
      rw [Bitmap.marked_iff]
      exact eq_allBits_iff.mp (hlt (i / 8) (by omega)) _ (Nat.mod_lt _ (by decide))
    dsimp only
    cases hg : (List.range bitsPerWord).find? fun offset => b.v ix &&& wordMask offset = 0#8 with
    | none =>
      refine absurd (eq_allBits_iff.mpr fun j hj => ?_) hix
      have h := List.find?_eq_none.mp hg j (List.mem_range.mpr hj)
      simp only [decide_eq_true_eq, and_wordMask_eq_zero hj] at h
      simpa using h
    | some off =>
      obtain ⟨hoff, hmem, hlt'⟩ := List.find?_range_eq_some.mp hg
      have hoff8 : off < 8 := List.mem_range.mp hmem
      simp only [decide_eq_true_eq, Bool.not_eq_true', decide_eq_false_iff_not] at hoff hlt'
      rw [and_wordMask_eq_zero hoff8] at hoff
      have hclear : ¬b.Marked (ix * 8 + off) := by
        rw [Bitmap.marked_word hoff8, hoff]
        simp
      have hn : ix * 8 + off < b.nbits := by
        by_contra hge
        refine hclear (hb _ (by omega) ?_)
        unfold bitsPerWord
        omega
      have hmarked := fun i => @marked_set b ix off i hoff8
      dsimp only
      rw [kassert_pos (show ix * bitsPerWord + off < b.nbits from hn), ok_bind]
      refine ⟨hn, hclear, fun i hi => ?_, rfl, fun i hi hi' => (hmarked i).mpr (Or.inl ?_), hmarked⟩
      · change i < ix * 8 + off at hi
        rcases Nat.lt_or_ge i (ix * 8) with h | h
        · exact hbefore i h
        · obtain ⟨o, rfl⟩ := Nat.exists_eq_add_of_le h
          have ho : o < off := by omega
          have h8 : o < 8 := by omega
          rw [Bitmap.marked_word h8]
          simpa [and_wordMask_eq_zero h8] using hlt' o ho
      · exact hb i hi hi'

/-- `bitmap_mark` of a clear bit marks that bit only. -/
theorem bitmapMark_spec {b : Bitmap} {index : ℕ} (hb : b.WF) (hn : index < b.nbits)
    (hm : ¬b.Marked index) :
    ∃ b', bitmapMark b index = .ok b' ∧ b'.nbits = b.nbits ∧ b'.WF ∧
      ∀ i, b'.Marked i ↔ b.Marked i ∨ i = index := by
  have hoff : index % 8 < 8 := Nat.mod_lt _ (by decide)
  have hmask : b.v (index / 8) &&& wordMask (index % 8) = 0#8 := by
    rw [and_wordMask_eq_zero hoff]
    exact Bool.eq_false_iff.mpr (mt Bitmap.marked_iff.mpr hm)
  have heq : bitmapMark b index = .ok
      { b with v := update b.v (index / 8) (b.v (index / 8) ||| wordMask (index % 8)) } := by
    unfold bitmapMark
    rw [kassert_pos hn, ok_bind]
    dsimp only
    rw [kassert_pos (show b.v (index / bitsPerWord) &&& wordMask (index % bitsPerWord) = 0#8
      from hmask), ok_bind]
    rfl
  have hmarked : ∀ i, _ ↔ b.Marked i ∨ i = index / 8 * 8 + index % 8 := fun i =>
    @marked_set b (index / 8) (index % 8) i hoff
  rw [Nat.div_add_mod'] at hmarked
  rw [heq]
  exact ⟨_, rfl, rfl, fun i hi hi' => (hmarked i).mpr (Or.inl (hb i hi hi')), hmarked⟩

/-- `bitmap_unmark` of a marked bit clears that bit only. -/
theorem bitmapUnmark_spec {b : Bitmap} {index : ℕ} (hb : b.WF) (hn : index < b.nbits)
    (hm : b.Marked index) :
    ∃ b', bitmapUnmark b index = .ok b' ∧ b'.nbits = b.nbits ∧ b'.WF ∧
      ∀ i, b'.Marked i ↔ b.Marked i ∧ i ≠ index := by
  have hmask : b.v (index / 8) &&& wordMask (index % 8) ≠ 0#8 := by
    rw [ne_eq, and_wordMask_eq_zero (Nat.mod_lt _ (by decide)), Bitmap.marked_iff.mp hm]
    simp
  have heq : bitmapUnmark b index = .ok
      { b with v := update b.v (index / 8) (b.v (index / 8) &&& ~~~wordMask (index % 8)) } := by
    unfold bitmapUnmark
    rw [kassert_pos hn, ok_bind]
    dsimp only
    rw [kassert_pos (show b.v (index / bitsPerWord) &&& wordMask (index % bitsPerWord) ≠ 0#8
      from hmask), ok_bind]
    rfl
  rw [heq]
  refine ⟨_, rfl, rfl, fun i hi hi' => marked_clear.mpr ⟨hb i hi hi', ?_⟩, fun i => marked_clear⟩
  change b.nbits ≤ i at hi
  omega

end OS161
