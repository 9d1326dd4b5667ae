import OS161.Bitmap
import OS161.Transition
import Mathlib.Order.Bounds.Basic

/-!
# A bitmap is a finite set

A run of a bitmap is told as a list of calls with their results. `setAfter` is the set of indices
that the calls have put into the bitmap and not taken out again, computed from the list alone.

`BitmapTracks` relates the bits to that set, and every call keeps it (`BitmapTracks.step`).
`bitmap_is_set` : after `bitmap_create` and any run, `bitmap_isset` tells the members of the set,
`bitmap_alloc` takes the least index that is not a member, and the padding stays set.
-/

namespace OS161

/-- `bitmap_create`, with its assertions and with the 32-bit arithmetic of the source. -/
def bitmapCreate32 (nbits : ℕ) : Except Halt Bitmap := do
  let words := word32 (nbits + bitsPerWord - 1) / bitsPerWord
  if nbits / bitsPerWord < words then do
    let ix := words - 1
    let overbits := word32 (nbits + 2 ^ 32 - ix * bitsPerWord)
    kassert (nbits / bitsPerWord = words - 1) "nbits / BITS_PER_WORD == words-1"
    kassert (0 < overbits ∧ overbits < bitsPerWord) "overbits > 0 && overbits < BITS_PER_WORD"
    .ok ⟨nbits, Function.update (fun _ => 0#8) ix (leftoverWord overbits)⟩
  else .ok ⟨nbits, fun _ => 0#8⟩

/-- A call on a bitmap. -/
inductive BitmapOp
  | alloc
  | mark (index : ℕ)
  | unmark (index : ℕ)
  deriving DecidableEq, Repr

/-- One call and its result : the index that `bitmap_alloc` found, if it found one. Clear bits are
marked, and set bits unmarked. -/
inductive BitmapStep (b : Bitmap) : BitmapOp × Option ℕ → Bitmap → Prop
  | alloc {index : ℕ} {b' : Bitmap} (h : bitmapAlloc b = .ok (some (index, b'))) :
      BitmapStep b (.alloc, some index) b'
  | full (h : bitmapAlloc b = .ok none) : BitmapStep b (.alloc, none) b
  | mark {index : ℕ} {b' : Bitmap} (hn : index < b.nbits) (hc : bitmapIsset b index = false)
      (h : bitmapMark b index = .ok b') : BitmapStep b (.mark index, none) b'
  | unmark {index : ℕ} {b' : Bitmap} (hn : index < b.nbits) (hs : bitmapIsset b index = true)
      (h : bitmapUnmark b index = .ok b') : BitmapStep b (.unmark index, none) b'

/-- The set that the calls have built, newest call first. -/
def setAfter : List (BitmapOp × Option ℕ) → Finset ℕ
  | [] => ∅
  | (.alloc, some index) :: l => insert index (setAfter l)
  | (.alloc, none) :: l => setAfter l
  | (.mark index, _) :: l => insert index (setAfter l)
  | (.unmark index, _) :: l => (setAfter l).erase index

theorem bitmapCreate32_eq {nbits : ℕ} (hn : nbits + 7 < 2 ^ 32) :
    bitmapCreate32 nbits = .ok (bitmapCreate nbits) := by
  have hwords : word32 (nbits + bitsPerWord - 1) / bitsPerWord = (nbits + 7) / 8 := by
    unfold word32 bitsPerWord
    omega
  unfold bitmapCreate32
  rw [hwords]
  dsimp only
  split_ifs with hlt
  · change nbits / 8 < (nbits + 7) / 8 at hlt
    have hover : word32 (nbits + 2 ^ 32 - ((nbits + 7) / 8 - 1) * bitsPerWord) =
        nbits - ((nbits + 7) / 8 - 1) * 8 := by
      unfold word32 bitsPerWord
      omega
    have hlast : nbits / bitsPerWord = (nbits + 7) / 8 - 1 := by
      unfold bitsPerWord
      omega
    have hbits : 0 < nbits - ((nbits + 7) / 8 - 1) * 8 ∧
        nbits - ((nbits + 7) / 8 - 1) * 8 < bitsPerWord := by
      unfold bitsPerWord
      omega
    rw [hover, kassert_pos hlast, ok_bind, kassert_pos hbits, ok_bind]
    refine congrArg (fun v => Except.ok (Bitmap.mk nbits v)) (funext fun ix => ?_)
    change _ = (bitmapCreate nbits).v ix
    rw [bitmapCreate_word, Function.update_apply]
    by_cases hix : ix = (nbits + 7) / 8 - 1
    · rw [if_pos hix, if_pos ⟨hlt, hix⟩, hix]
    · rw [if_neg hix, if_neg fun h => hix h.2]
  · refine congrArg (fun v => Except.ok (Bitmap.mk nbits v)) (funext fun ix => ?_)
    change _ = (bitmapCreate nbits).v ix
    rw [bitmapCreate_word, if_neg fun h => hlt h.1]

/-! ## Runs -/

section Runs

variable {n : ℕ} {b b' : Bitmap} {l : List (BitmapOp × Option ℕ)} {x : BitmapOp × Option ℕ}

/-- The bits are those of the set. -/
structure BitmapTracks (n : ℕ) (l : List (BitmapOp × Option ℕ)) (b : Bitmap) : Prop where
  nbits : b.nbits = n
  wf : b.WF
  marked : ∀ i < n, b.Marked i ↔ i ∈ setAfter l

namespace BitmapTracks

theorem create (n : ℕ) : BitmapTracks n [] (bitmapCreate n) where
  nbits := rfl
  wf := bitmapCreate_wf n
  marked i hi := by simp [not_marked_bitmapCreate hi, setAfter]

/-- A bit has been added. -/
theorem insert {index : ℕ} (h : BitmapTracks n l b) (hn : b'.nbits = b.nbits) (hwf : b'.WF)
    (hm : ∀ i, b'.Marked i ↔ b.Marked i ∨ i = index)
    (hx : setAfter (x :: l) = Insert.insert index (setAfter l)) :
    BitmapTracks n (x :: l) b' where
  nbits := hn.trans h.nbits
  wf := hwf
  marked i hi := by rw [hm, h.marked i hi, hx, Finset.mem_insert, or_comm]

theorem step (h : BitmapTracks n l b) (hs : BitmapStep b x b') :
    BitmapTracks n (x :: l) b' := by
  cases hs with
  | alloc ha =>
    obtain ⟨-, -, -, hn, hwf, hm⟩ := (bitmapAlloc_spec h.wf).of_ok ha
    exact h.insert hn hwf hm rfl
  | full ha => exact ⟨h.nbits, h.wf, h.marked⟩
  | mark hn hc hmark =>
    obtain ⟨b'', heq, hn', hwf, hm⟩ := bitmapMark_spec h.wf hn (Bool.eq_false_iff.mp hc)
    cases heq.symm.trans hmark
    exact h.insert hn' hwf hm rfl
  | unmark hn hset hun =>
    obtain ⟨b'', heq, hn', hwf, hm⟩ := bitmapUnmark_spec h.wf hn hset
    cases heq.symm.trans hun
    refine ⟨hn'.trans h.nbits, hwf, fun i hi => ?_⟩
    rw [hm, h.marked i hi, setAfter, Finset.mem_erase, and_comm]

theorem of_run (h : Run BitmapStep (bitmapCreate n) l b) : BitmapTracks n l b :=
  h.trace_induct (I := fun l b => BitmapTracks n l b) (create n)
    fun _ _ _ _ _ ht hs => ht.step hs

/-- What `bitmap_alloc` takes. -/
theorem alloc (h : BitmapTracks n l b) : ∃ r, bitmapAlloc b = .ok r ∧
    (r = none ↔ ∀ i < n, i ∈ setAfter l) ∧
    ∀ index b', r = some (index, b') → IsLeast {i | i < n ∧ i ∉ setAfter l} index ∧
      ∀ i, bitmapIsset b' i = true ↔ bitmapIsset b i = true ∨ i = index := by
  have hspec := bitmapAlloc_spec h.wf
  have hn := h.nbits
  cases hr : bitmapAlloc b with
  | error e => exact (hspec.of_error hr).elim
  | ok r =>
    have hpost := hspec.of_ok hr
    refine ⟨r, rfl, ?_⟩
    cases r with
    | none =>
      refine ⟨iff_of_true rfl fun i hi => (h.marked i hi).mp (hpost i (hn ▸ hi)), fun _ _ hc => ?_⟩
      cases hc
    | some r =>
      obtain ⟨index, b'⟩ := r
      obtain ⟨hlt, hclear, hleast, -, -, hm⟩ := hpost
      have hlt' : index < n := hn ▸ hlt
      have hnew : index ∉ setAfter l := mt (h.marked index hlt').mpr hclear
      refine ⟨iff_of_false (Option.some_ne_none _) fun hall => hnew (hall index hlt'), ?_⟩
      intro _ _ heq
      cases heq
      refine ⟨⟨⟨hlt', hnew⟩, fun i hi => ?_⟩, hm⟩
      by_contra hlt
      exact hi.2 ((h.marked i hi.1).mp (hleast i (not_le.mp hlt)))

end BitmapTracks

/-- After `bitmap_create` and any run of calls : `bitmap_isset` tells the members of the set, the
padding is set, `bitmap_alloc` takes the least index that is not a member, or reports a full map
exactly if there is none, and no assertion fails. -/
theorem bitmap_is_set {nbits : ℕ} (hn : nbits + 7 < 2 ^ 32) : ∃ b₀, bitmapCreate32 nbits = .ok b₀ ∧
    ∀ l b, Run BitmapStep b₀ l b →
      (∀ i < nbits, bitmapIsset b i = true ↔ i ∈ setAfter l) ∧
      (∀ i, nbits ≤ i → i < (nbits + 7) / 8 * 8 → bitmapIsset b i = true) ∧
      (∃ r, bitmapAlloc b = .ok r ∧ (r = none ↔ ∀ i < nbits, i ∈ setAfter l) ∧
        ∀ index b', r = some (index, b') → IsLeast {i | i < nbits ∧ i ∉ setAfter l} index ∧
          ∀ i, bitmapIsset b' i = true ↔ bitmapIsset b i = true ∨ i = index) ∧
      (∀ i < nbits, i ∉ setAfter l → ∃ b', bitmapMark b i = .ok b' ∧
        ∀ j, bitmapIsset b' j = true ↔ bitmapIsset b j = true ∨ j = i) ∧
      ∀ i < nbits, i ∈ setAfter l → ∃ b', bitmapUnmark b i = .ok b' ∧
        ∀ j, bitmapIsset b' j = true ↔ bitmapIsset b j = true ∧ j ≠ i := by
  refine ⟨_, bitmapCreate32_eq hn, fun l b hrun => ?_⟩
  have h := BitmapTracks.of_run hrun
  refine ⟨h.marked, fun i hge hlt => ?_, h.alloc, fun i hi hnew => ?_, fun i hi hmem => ?_⟩
  · refine h.wf i (h.nbits.trans_le hge) ?_
    unfold Bitmap.maxix
    rw [h.nbits]
    exact hlt
  · obtain ⟨b', heq, -, -, hm⟩ :=
      bitmapMark_spec h.wf (h.nbits.symm ▸ hi) (mt (h.marked i hi).mp hnew)
    exact ⟨b', heq, hm⟩
  · obtain ⟨b', heq, -, -, hm⟩ :=
      bitmapUnmark_spec h.wf (h.nbits.symm ▸ hi) ((h.marked i hi).mpr hmem)
    exact ⟨b', heq, hm⟩

theorem bitmap_is_set_twelve : ∃ b₀, bitmapCreate32 12 = .ok b₀ ∧
    ∀ l b, Run BitmapStep b₀ l b → ∀ i < 12, bitmapIsset b i = true ↔ i ∈ setAfter l := by
  obtain ⟨b₀, hb, h⟩ := bitmap_is_set (show 12 + 7 < 2 ^ 32 by decide)
  exact ⟨b₀, hb, fun l b hrun => (h l b hrun).1⟩

end Runs

end OS161
