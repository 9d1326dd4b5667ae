import Mathlib.Data.Set.Lattice
import Mathlib.Order.CompletePartialOrder
import Mathlib.Order.Interval.Set.Basic
import OS161.Resolve

/-!
# The page table has one entry for each page

The page table of an address space has no entries for pages outside the segments. The
index of an address counts the pages of the segments before its own, and then from the page
of the first address of its segment on; the number of pages comes from `as_define_region`,
which rounds the unaligned size up. `ptGetIndex_bijective` says that the two computations
agree for every two regions that do not overlap : the index is in the table, it tells
addresses of different segments or pages apart, and no entry is left unused. The last part
needs that every segment holds an address on each of its pages
(`Segment.exists_contains_page`).
-/

namespace OS161

variable {σ : Type}

/-! ## Every page of a segment -/

/-- A segment that is not empty holds an address on each of its pages. -/
theorem Segment.exists_contains_page {seg : Segment} (hw : seg.WF)
    (hne : seg.segFirstVaddr < seg.segLastVaddr) {j : ℕ} (hj : j < seg.segNpages) :
    ∃ a, seg.Contains a ∧ (a - pageFrame seg.segFirstVaddr) / pageSize = j := by
  obtain ⟨-, hn, -⟩ := hw hne
  refine ⟨max seg.segFirstVaddr (pageFrame seg.segFirstVaddr + j * pageSize), ⟨?_, ?_⟩, ?_⟩
  · exact le_max_left _ _
  · simp only [divroundup, pageFrame, pageSize] at *
    omega
  · simp only [pageFrame, pageSize]
    omega

namespace Layout

variable {L : Layout}

/-- Every entry of the table is the entry of some address. -/
theorem exists_indexIn (hw : L.WF)
    (hne : ∀ ty, (L.seg ty).segFirstVaddr < (L.seg ty).segLastVaddr) {i : ℕ} (hi : i < L.npages) :
    ∃ ty a, (L.seg ty).Contains a ∧ L.indexIn ty a = i := by
  obtain ⟨ty, hb, hlt⟩ : ∃ ty, L.base ty ≤ i ∧ i - L.base ty < (L.seg ty).segNpages := by
    by_cases ht : i < L.text.segNpages
    · exact ⟨.text, Nat.zero_le i, ht⟩
    · by_cases hd : i < L.text.segNpages + L.data.segNpages
      · exact ⟨.data, not_lt.mp ht, by simp only [base, seg]; omega⟩
      · refine ⟨.stack, ?_, ?_⟩ <;> simp only [base, seg, npages] at * <;> omega
  obtain ⟨a, ha, hpage⟩ := Segment.exists_contains_page (hw.seg ty) (hne ty) hlt
  refine ⟨ty, a, ha, ?_⟩
  rw [indexIn, hpage]
  omega

end Layout

/-! ## Two regions and the stack -/

/-- The bytes of the two regions and of the stack. -/
def regionBytes (t d : ElfPhdr) : SegType → Set ℕ
  | .text => Set.Ico t.pVaddr (t.pVaddr + t.pMemsz)
  | .data => Set.Ico d.pVaddr (d.pVaddr + d.pMemsz)
  | .stack => Set.Ico (userstack - vmStackpages * pageSize) userstack

section Regions

variable {t d : ElfPhdr}

theorem contains_fileLayout (ht : t.Fits) (hd : d.Fits) (ty : SegType) (a : ℕ) :
    ((fileLayout t d).seg ty).Contains a ↔ a ∈ regionBytes t d ty := by
  have key : ∀ ph : ElfPhdr, ph.Fits →
      (ph.segment.Contains a ↔ a ∈ Set.Ico ph.pVaddr (ph.pVaddr + ph.pMemsz)) := by
    intro ph h
    rw [Segment.Contains, ← h.segment.1]
    rfl
  cases ty with
  | text => exact key t ht
  | data => exact key d hd
  | stack => rfl

theorem fileLayout_wf (ht : t.Fits) (hd : d.Fits) : (fileLayout t d).WF := by
  have key : ∀ ph : ElfPhdr, ph.Fits → ph.segment.WF := by
    intro ph h
    refine ElfPhdr.segment_wf h.accepted ?_
    have := h.2
    simp only [userspacetop, mipsKseg0] at this
    omega
  refine ⟨fun ty => ?_⟩
  cases ty with
  | text => exact key t ht
  | data => exact key d hd
  | stack => exact stackSegment_wf

theorem fileLayout_nonempty (ht : t.Fits) (hd : d.Fits) (ty : SegType) :
    ((fileLayout t d).seg ty).segFirstVaddr < ((fileLayout t d).seg ty).segLastVaddr := by
  have key : ∀ ph : ElfPhdr, ph.Fits → ph.segment.segFirstVaddr < ph.segment.segLastVaddr := by
    intro ph h
    have h0 := h.1
    have hend := h.segment.1
    omega
  cases ty with
  | text => exact key t ht
  | data => exact key d hd
  | stack => exact (by decide : stackSegment.segFirstVaddr < stackSegment.segLastVaddr)

theorem fileLayout_bytesDisjoint (ht : t.Fits) (hd : d.Fits)
    (hdisj : Pairwise (Function.onFun Disjoint (regionBytes t d))) :
    (fileLayout t d).BytesDisjoint := by
  intro ty ty' a h h'
  by_contra hne
  rw [contains_fileLayout ht hd] at h h'
  exact Set.disjoint_left.mp (hdisj hne) h h'

end Regions

/-! ## The bijection -/

/-- `pt_get_index` maps the pages of the addresses that `as_get_segment_type` accepts one to
one onto the numbers below `n`. -/
structure PtIndexBijective (as : AddrSpace) (n : ℕ) : Prop where
  index : ∀ a ty, asGetSegmentType as a = .ok (some ty) → ∃ i < n, ptGetIndex as a = .ok i
  inj : ∀ a b ty ty' i j, asGetSegmentType as a = .ok (some ty) →
    asGetSegmentType as b = .ok (some ty') → ptGetIndex as a = .ok i → ptGetIndex as b = .ok j →
      (i = j ↔ ty = ty' ∧ pageFrame a = pageFrame b)
  onto : ∀ i < n, ∃ a ty, asGetSegmentType as a = .ok (some ty) ∧ ptGetIndex as a = .ok i

theorem ptIndexBijective_of_has {as : AddrSpace} {L : Layout} (h : as.Has L) (hw : L.WF)
    (hne : ∀ ty, (L.seg ty).segFirstVaddr < (L.seg ty).segLastVaddr) (hd : L.BytesDisjoint) :
    PtIndexBijective as L.npages := by
  have htype : ∀ {a ty}, asGetSegmentType as a = .ok (some ty) → L.segType a = some ty := by
    intro a ty ha
    rw [asGetSegmentType_of_has h] at ha
    exact Except.ok.inj ha
  refine ⟨fun a ty ha => ?_, fun a b ty ty' i j ha hb hi hj => ?_, fun i hi => ?_⟩
  · have hc := Layout.contains_of_segType (htype ha)
    exact ⟨_, Layout.indexIn_lt_npages hw hc, ptGetIndex_of_has h hw (htype ha)⟩
  · rw [ptGetIndex_of_has h hw (htype ha)] at hi
    rw [ptGetIndex_of_has h hw (htype hb)] at hj
    rw [← Except.ok.inj hi, ← Except.ok.inj hj]
    exact Layout.indexIn_inj hw (Layout.contains_of_segType (htype ha))
      (Layout.contains_of_segType (htype hb))
  · obtain ⟨ty, a, hc, rfl⟩ := Layout.exists_indexIn hw hne hi
    have ht := Layout.segType_of_mem hd hc
    exact ⟨a, ty, by rw [asGetSegmentType_of_has h, ht], ptGetIndex_of_has h hw ht⟩

/-- The index does not look at the table. -/
theorem PtIndexBijective.of_table {as : AddrSpace} {n : ℕ} {table : Option ℕ}
    (h : PtIndexBijective { as with asPtable := table } n) : PtIndexBijective as n :=
  ⟨h.index, h.inj, h.onto⟩

/-- Two regions and the stack, disjoint and in user space : the index is a bijection onto the
page table that `as_define_pt` allocates. -/
theorem ptGetIndex_bijective {kmalloc : Kmalloc σ} {heap heap₁ heap₂ heap₃ : σ} {t d : ElfPhdr}
    {as₁ as₂ as : AddrSpace} {stackptr : ℕ}
    (ht : asDefineRegion kmalloc heap asCreate t.pVaddr t.pMemsz t.pOffset t.pFilesz =
      .ok (as₁, heap₁))
    (hd : asDefineRegion kmalloc heap₁ as₁ d.pVaddr d.pMemsz d.pOffset d.pFilesz =
      .ok (as₂, heap₂))
    (hs : asDefineStack kmalloc heap₂ as₂ = .ok (as, stackptr, heap₃))
    (htop : t.pVaddr + t.pMemsz ≤ userspacetop) (hdop : d.pVaddr + d.pMemsz ≤ userspacetop)
    (hdisj : Pairwise (Function.onFun Disjoint (regionBytes t d))) :
    ∃ text data stack, as.asText = some text ∧ as.asData = some data ∧ as.asStack = some stack ∧
      PtIndexBijective as (text.segNpages + data.segNpages + stack.segNpages) ∧
      ∀ as' heap' m, asDefinePt kmalloc heap₃ as = .ok (as', heap') → as'.asPtable = some m →
        m = text.segNpages + data.segNpages + stack.segNpages ∧
          word32 (sizeofPtEntry * m) = sizeofPtEntry * m := by
  rw [asDefineRegion_text rfl] at ht
  obtain ⟨hta, -, rfl⟩ := ht
  rw [asDefineRegion_data rfl rfl] at hd
  obtain ⟨hda, -, rfl⟩ := hd
  rw [asDefineStack_eq_ok] at hs
  obtain ⟨-, -, rfl⟩ := hs
  have htf : t.Fits := ⟨hta.1, htop⟩
  have hdf : d.Fits := ⟨hda.1, hdop⟩
  have hn : (fileLayout t d).npages =
      t.segment.segNpages + d.segment.segNpages + stackSegment.segNpages := by
    simp only [Layout.npages, fileLayout]
    omega
  have hbij : PtIndexBijective ⟨some t.segment, some d.segment, some stackSegment,
      some (fileLayout t d).npages⟩ (fileLayout t d).npages :=
    ptIndexBijective_of_has rfl (fileLayout_wf htf hdf) (fileLayout_nonempty htf hdf)
      (fileLayout_bytesDisjoint htf hdf hdisj)
  refine ⟨t.segment, d.segment, stackSegment, rfl, rfl, rfl, hn ▸ hbij.of_table,
    fun as' heap' m hpt hm => ?_⟩
  obtain rfl := asDefinePt_table _ (fileLayout t d) rfl rfl rfl hpt (by rw [hm]; rfl)
  obtain rfl := Option.some.inj hm
  refine ⟨hn, ?_⟩
  have hpages : (fileLayout t d).npages = d.npages + t.npages + vmStackpages := by
    rw [Layout.npages, fileLayout, htf.segment.2.2.2, hdf.segment.2.2.2]
    rfl
  rw [hpages]
  exact word32_table htf hdf

/-- Two unaligned regions, the first of them on two pages. -/
theorem ptGetIndex_bijective_small :
    PtIndexBijective ⟨some (ElfPhdr.segment ⟨1, 0, 0x400ff0, 0x20, 0x20⟩),
      some (ElfPhdr.segment ⟨1, 0, 0x402010, 4, 4⟩), some stackSegment, none⟩ 21 := by
  have hdisj : Pairwise (Function.onFun Disjoint
      (regionBytes ⟨1, 0, 0x400ff0, 0x20, 0x20⟩ ⟨1, 0, 0x402010, 4, 4⟩)) := by
    intro ty ty' hne
    refine Set.disjoint_left.mpr ?_
    intro a h h'
    cases ty <;> cases ty' <;>
      simp only [regionBytes, Set.mem_Ico, userstack, userspacetop, mipsKseg0, vmStackpages,
        pageSize, ne_eq, not_true, reduceCtorEq, not_false_eq_true] at * <;> omega
  have ht : asDefineRegion (fun _ _ => .block () : Kmalloc Unit) () asCreate 0x400ff0 0x20 0 0x20 =
      .ok (⟨some (ElfPhdr.segment ⟨1, 0, 0x400ff0, 0x20, 0x20⟩), none, none, none⟩, ()) := rfl
  obtain ⟨text, data, stack, h1, h2, h3, hbij, -⟩ :=
    ptGetIndex_bijective ht rfl rfl (by decide) (by decide) hdisj
  cases h1
  cases h2
  cases h3
  exact hbij

end OS161
