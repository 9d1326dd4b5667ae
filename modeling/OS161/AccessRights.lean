import OS161.PageIndex

/-!
# Rights of an address and rights of its page

`vm_fault` decides by bytes : an address has the rights of the segment that holds it, and none
if no segment does. The TLB entry it installs is for the whole page. `RightsAgree` asks that the
two are the same : whichever address of a page faults, the outcome and the entry are those
another address of the page would get.

A fault depends on its address only through the segment and the page (`vmFault_congr`). So
rights agree exactly if all addresses of a page have one segment, and this is a matter of
alignment (`Layout.segType_page_iff`) : the text region has to start and end at page
boundaries, and so has the data region, except where its bounds lie in the text.
`rights_agree_iff` is the result for every address space that is set up from a file.
-/

namespace OS161

/-! ## Segments and pages -/

namespace Layout

variable (L : Layout)

/-- The bounds of the text region are page boundaries, and those of the data region are, or lie
in the text. A region that wraps around holds no address, and its bounds are free. -/
structure Aligned : Prop where
  text : L.text.segFirstVaddr < L.text.segLastVaddr →
    pageOffset L.text.segFirstVaddr = 0 ∧ pageOffset L.text.segLastVaddr = 0
  data : L.data.segFirstVaddr < L.data.segLastVaddr →
    (pageOffset L.data.segFirstVaddr = 0 ∨ L.text.Contains L.data.segFirstVaddr) ∧
      (pageOffset L.data.segLastVaddr = 0 ∨ L.text.Contains L.data.segLastVaddr)

variable {L} {a b : ℕ}

/-- A segment that starts and ends at page boundaries holds a page or none of it. -/
theorem contains_congr {seg : Segment} (h : seg.segFirstVaddr < seg.segLastVaddr →
      pageOffset seg.segFirstVaddr = 0 ∧ pageOffset seg.segLastVaddr = 0)
    (hp : pageFrame a = pageFrame b) : seg.Contains a ↔ seg.Contains b := by
  simp only [Segment.Contains, pageOffset, pageFrame] at *
  omega

theorem Aligned.segType_eq (h : L.Aligned) (hs : L.stack = stackSegment)
    (hp : pageFrame a = pageFrame b) : L.segType a = L.segType b := by
  have htext : L.text.Contains a ↔ L.text.Contains b := contains_congr h.text hp
  have hstack : L.stack.Contains a ↔ L.stack.Contains b := by
    rw [hs]
    exact contains_congr (fun _ => by decide) hp
  have hdata : ¬L.text.Contains a → (L.data.Contains a ↔ L.data.Contains b) := by
    intro hna
    have ht := h.text
    have hd := h.data
    simp only [Segment.Contains, pageOffset, pageFrame] at *
    omega
  unfold segType
  by_cases ht : L.text.Contains a
  · rw [if_pos ht, if_pos (htext.mp ht)]
  · rw [if_neg ht, if_neg (mt htext.mpr ht)]
    simp only [hdata ht, hstack]

/-- A bound of a segment that is not a page boundary has an address of the segment on one side
and one outside it on the other side of the same page. -/
theorem aligned_of_segType_eq
    (h : ∀ a b, pageFrame a = pageFrame b → L.segType a = L.segType b) : L.Aligned := by
  have htext : ∀ a, L.segType a = some .text ↔ L.text.Contains a := by
    intro a
    refine ⟨contains_of_segType, fun hc => ?_⟩
    rw [segType, if_pos hc]
  have hdata : ∀ a, L.segType a = some .data ↔ ¬L.text.Contains a ∧ L.data.Contains a := by
    intro a
    unfold segType
    split_ifs with h1 h2 h3 <;> simp_all
  have hpage : ∀ x, pageOffset x ≠ 0 → pageFrame (x - 1) = pageFrame x := by
    intro x hx
    simp only [pageOffset, pageFrame] at *
    omega
  have heq : ∀ x, pageOffset x ≠ 0 → (L.text.Contains (x - 1) ↔ L.text.Contains x) ∧
      (¬L.text.Contains (x - 1) ∧ L.data.Contains (x - 1) ↔
        ¬L.text.Contains x ∧ L.data.Contains x) := by
    intro x hx
    rw [← hdata, ← hdata, ← htext, ← htext, h _ _ (hpage x hx)]
    exact ⟨Iff.rfl, Iff.rfl⟩
  refine ⟨fun hne => ⟨?_, ?_⟩, fun hne => ⟨?_, ?_⟩⟩
  · by_contra hx
    have := (heq _ hx).1
    simp only [Segment.Contains, pageOffset] at *
    omega
  · by_contra hx
    have := (heq _ hx).1
    simp only [Segment.Contains, pageOffset] at *
    omega
  · by_contra! hx
    have := heq _ hx.1
    simp only [Segment.Contains, pageOffset] at *
    omega
  · by_contra! hx
    have := heq _ hx.1
    simp only [Segment.Contains, pageOffset] at *
    omega

/-- All addresses of a page have one segment exactly if the bounds are aligned. -/
theorem segType_page_iff (hs : L.stack = stackSegment) :
    (∀ a b, pageFrame a = pageFrame b → L.segType a = L.segType b) ↔ L.Aligned :=
  ⟨aligned_of_segType_eq, fun h _ _ hp => h.segType_eq hs hp⟩

end Layout

/-! ## A fault looks at the segment and the page -/

section Congr

variable {as : AddrSpace} {L : Layout} {a b : ℕ}

theorem lt_roundup32_congr (x : ℕ) (hp : pageFrame a = pageFrame b) :
    a < roundup32 x ↔ b < roundup32 x := by
  simp only [roundup32, word32, pageFrame, pageSize] at *
  omega

theorem Segment.loadPlan_congr (seg : Segment) (hp : pageFrame a = pageFrame b) :
    seg.loadPlan a = seg.loadPlan b := by
  unfold Segment.loadPlan
  rw [hp]

variable (h : as.Has L) (hw : L.WF) (hs : L.segType a = L.segType b)
  (hp : pageFrame a = pageFrame b)

include h hs

theorem asGetSegmentType_congr : asGetSegmentType as a = asGetSegmentType as b := by
  rw [asGetSegmentType_of_has h, asGetSegmentType_of_has h, hs]

theorem asGetSegment_congr : asGetSegment as a = asGetSegment as b := by
  rw [asGetSegment, asGetSegment, asGetSegmentType_congr h hs]

include hw hp

theorem ptGetIndex_congr : ptGetIndex as a = ptGetIndex as b := by
  cases ht : L.segType b with
  | none =>
    rw [ptGetIndex, ptGetIndex, asGetSegmentType_of_has h, asGetSegmentType_of_has h, hs, ht]
    rfl
  | some ty =>
    have hta := hs.trans ht
    rw [ptGetIndex_of_has h hw hta, ptGetIndex_of_has h hw ht, (Layout.indexIn_inj hw
      (Layout.contains_of_segType hta) (Layout.contains_of_segType ht)).mpr ⟨rfl, hp⟩]

theorem ptGetEntry_congr (p : ℕ) : ptGetEntry p as a = ptGetEntry p as b := by
  rw [ptGetEntry, ptGetEntry, ptGetIndex_congr h hw hs hp]

theorem asLoadPageBegin_congr (k : Kernel) (p : ℕ) :
    asLoadPageBegin k p as a = asLoadPageBegin k p as b := by
  have hfirst : ∀ seg : Segment,
      pageFrame seg.segFirstVaddr ≤ a ↔ pageFrame seg.segFirstVaddr ≤ b := by
    intro seg
    simp only [pageFrame] at *
    omega
  simp only [asLoadPageBegin, ptGetEntry_congr h hw hs hp, asGetSegment_congr h hs,
    lt_roundup32_congr _ hp, hfirst, Segment.loadPlan_congr _ hp]

end Congr

/-- A process with the address space `as` is running. -/
def Kernel.Runs (k : Kernel) (as : AddrSpace) : Prop :=
  ∃ p pr, k.curproc = some p ∧ k.procs p = some pr ∧ pr.pAddrspace = as

section Fault

variable {k : Kernel} {as : AddrSpace} {L : Layout} {a b : ℕ} {fp : FaultPage}

theorem faultLookup_congr (hk : k.Runs as) (h : as.Has L) (hw : L.WF)
    (hs : L.segType a = L.segType b) (hp : pageFrame a = pageFrame b) (ft : FaultType) :
    faultLookup k ft a = faultLookup k ft b := by
  obtain ⟨p, pr, hcur, hpr, rfl⟩ := hk
  cases ft <;> simp only [faultLookup, hcur, hpr, asGetSegmentType_congr h hs,
    ptGetEntry_congr h hw hs hp]

/-- The page that a lookup finds belongs to the process that is running. -/
theorem faultLookup_proc {ft : FaultType} (hk : k.Runs as)
    (hl : faultLookup k ft a = .ok (.inr fp)) : fp.proc.pAddrspace = as := by
  obtain ⟨p, pr, hcur, hpr, rfl⟩ := hk
  have hty : ft = .read ∨ ft = .write := by
    cases ft <;> simp [faultLookup] at hl ⊢
  have hread : faultLookup k .read a = .ok (.inr fp) := by
    rcases hty with rfl | rfl <;> exact hl
  simp only [faultLookup, hcur, hpr, bind_eq_ok] at hread
  obtain ⟨-, -, -, -, -, -, -, -, ty, -, hrest⟩ := hread
  cases ty with
  | none => cases hrest
  | some ty =>
    simp only [bind_eq_ok, Except.ok.injEq, Sum.inr.injEq] at hrest
    obtain ⟨row, -, rfl⟩ := hrest
    rfl

theorem faultLoadBegin_congr (k : Kernel) (h : fp.proc.pAddrspace.Has L) (hw : L.WF)
    (hs : L.segType a = L.segType b) (hp : pageFrame a = pageFrame b) (paddr : ℕ) :
    faultLoadBegin k fp a paddr = faultLoadBegin k fp b paddr := by
  have hin : faultInElf fp a = faultInElf fp b := by
    unfold faultInElf
    split_ifs
    · rfl
    · cases ht : L.segType b with
      | none =>
        rw [asCheckInElf, asCheckInElf, asGetSegment, asGetSegment, asGetSegmentType_of_has h,
          asGetSegmentType_of_has h, hs, ht]
        rfl
      | some ty =>
        rw [asCheckInElf_of_has h (hs.trans ht), asCheckInElf_of_has h ht]
        simp only [lt_roundup32_congr _ hp]
  simp only [faultLoadBegin, hin, asLoadPageBegin_congr h hw hs hp]

/-- Two addresses of one segment and one page have the same fault. -/
theorem vmFault_congr (hk : k.Runs as) (h : as.Has L) (hw : L.WF)
    (hs : L.segType a = L.segType b) (hp : pageFrame a = pageFrame b) (ft : FaultType) :
    vmFault k ft a = vmFault k ft b := by
  have hk' : (vmstatsHit k .tlbFault).Runs as := hk
  simp only [vmFault]
  rw [faultLookup_congr hk' h hw hs hp ft]
  cases hl : faultLookup (vmstatsHit k .tlbFault) ft b with
  | error e => rfl
  | ok r =>
    cases r with
    | inl r => rfl
    | inr fp =>
      have has := faultLookup_proc hk' hl
      have hresolve : ∀ k, faultResolve k fp a = faultResolve k fp b := by
        intro k
        simp only [faultResolve, faultLoadBegin_congr _ (has ▸ h) hw hs hp]
      simp only [ok_bind, hresolve, faultInsert, hp]

end Fault

/-! ## The rights -/

/-- The entry that the last `tlb_insert` wrote. -/
def Tlb.installed (tlb : Tlb) : TlbEntry :=
  tlb.slot (tlb.tlbVictim - 1)

/-- The rights of an address do not depend on which address of its page faulted : an entry that
a fault of `b` installs gives `a` what a fault of `a` would have given it, and both are
rejected or neither. -/
structure RightsAgree (as : AddrSpace) : Prop where
  hit : ∀ k ft a b k', Kernel.Runs k as → pageFrame a = pageFrame b →
    vmFault k ft b = .ok (.ret none, k') →
      asGetSegmentType as a = asGetSegmentType as b ∧
        (∀ p, ptGetEntry p as a = ptGetEntry p as b) ∧
        ∃ k'', vmFault k ft a = .ok (.ret none, k'') ∧ k''.tlb.installed = k'.tlb.installed
  reject : ∀ k ft a b, Kernel.Runs k as → pageFrame a = pageFrame b →
    ((∃ status k', vmFault k ft a = .ok (.exit status, k')) ↔
      ∃ status k', vmFault k ft b = .ok (.exit status, k'))

theorem RightsAgree.of_segType {as : AddrSpace} {L : Layout} (h : as.Has L) (hw : L.WF)
    (hs : ∀ a b, pageFrame a = pageFrame b → L.segType a = L.segType b) : RightsAgree as := by
  refine ⟨fun k ft a b k' hk hp hb => ?_, fun k ft a b hk hp => ?_⟩
  · refine ⟨asGetSegmentType_congr h (hs a b hp),
      fun p => ptGetEntry_congr h hw (hs a b hp) hp p, k', ?_, rfl⟩
    rw [vmFault_congr hk h hw (hs a b hp) hp, hb]
  · rw [vmFault_congr hk h hw (hs a b hp) hp]

/-- A state in which a process with the address space `as` is running and has all of its pages
in memory. -/
def residentKernel (k : Kernel) (pr : Proc) : Kernel :=
  { k with
    curproc := some 1
    procs := fun _ => some pr
    pt := fun _ => ⟨0, 0, .inMemory⟩ }

/-- A fault of an address in a segment is resolved. -/
theorem vmFault_resident (k : Kernel) (pr : Proc) {L : Layout} {a : ℕ} {ty : SegType}
    (h : pr.pAddrspace.Has L) (hw : L.WF) (ht : L.segType a = some ty) :
    ∃ k', vmFault (residentKernel k pr) .read a = .ok (.ret none, k') := by
  have hsome : pr.pAddrspace.asData.isSome ∧ pr.pAddrspace.asStack.isSome ∧
      pr.pAddrspace.asText.isSome ∧ pr.pAddrspace.asPtable.isSome := by
    rw [h]
    exact ⟨rfl, rfl, rfl, rfl⟩
  have hlook : faultLookup (vmstatsHit (residentKernel k pr) .tlbFault) .read a =
      .ok (.inr ⟨1, pr, ty, ⟨1, L.indexIn ty a⟩⟩) := by
    simp only [faultLookup, vmstatsHit, residentKernel]
    rw [kassert_pos hsome.1, ok_bind, kassert_pos hsome.2.1, ok_bind, kassert_pos hsome.2.2.1,
      ok_bind, kassert_pos hsome.2.2.2, ok_bind, asGetSegmentType_of_has h, ok_bind, ht]
    rw [ptGetEntry, ptGetIndex_of_has h hw ht, ok_bind]
    rfl
  have hframe : pageFrame (0 * pageSize) = 0 * pageSize := by decide
  rw [vmFault, hlook, ok_bind]
  simp only [faultResolve, faultInsert, tlbInsert, vmstatsHit, residentKernel, ok_bind,
    kassert_pos hframe]
  exact ⟨_, rfl⟩

theorem RightsAgree.segType_eq {as : AddrSpace} {L : Layout} (h : as.Has L) (hw : L.WF)
    (hr : RightsAgree as) (v : Vnode) (k : Kernel) {a b : ℕ} (hp : pageFrame a = pageFrame b) :
    L.segType a = L.segType b := by
  have key : ∀ {a b ty}, pageFrame a = pageFrame b → L.segType b = some ty →
      L.segType a = some ty := by
    intro a b ty hp ht
    obtain ⟨k', hk'⟩ := vmFault_resident k ⟨as, v⟩ h hw ht
    have hruns : (residentKernel k ⟨as, v⟩).Runs as :=
      ⟨1, ⟨as, v⟩, rfl, rfl, rfl⟩
    have hseg := (hr.hit _ _ a b k' hruns hp hk').1
    rw [asGetSegmentType_of_has h, asGetSegmentType_of_has h, ht] at hseg
    exact Except.ok.inj hseg
  cases hb : L.segType b with
  | some ty => exact key hp hb
  | none =>
    cases ha : L.segType a with
    | none => rfl
    | some ty =>
      rw [key hp.symm ha] at hb
      cases hb

/-- For every address space that `load_elf`, `as_define_stack` and `as_define_pt` set up, the
rights of addresses do not depend on the TLB exactly if the bounds of its regions are aligned. -/
theorem rights_agree_iff {σ : Type} {kmalloc : Kmalloc σ} {v : Vnode} {heap heap' : σ} {r : ℕ × ℕ}
    {as : AddrSpace} (h : loadProgram kmalloc v heap = .ok (.ok r, as, heap'))
    (htable : as.asPtable.isSome) : ∃ L, as.Has L ∧ (RightsAgree as ↔ L.Aligned) := by
  obtain ⟨L, hb⟩ := loadProgram_built_of_table h htable
  have hstack : L.stack = stackSegment := by
    obtain ⟨-, t, d, -, -, -, -, -, rfl⟩ := hb
    rfl
  refine ⟨L, hb.1, ?_⟩
  rw [← Layout.segType_page_iff hstack]
  constructor
  · intro hr a b hp
    exact RightsAgree.segType_eq hb.1 hb.wf hr v (Sys.small 4).kernel hp
  · exact RightsAgree.of_segType hb.1 hb.wf

/-- A program with a page of text and a page of data. -/
theorem rights_agree_of_pages : ∃ r as, loadProgram heapRoom
    (elfFile 0x400000 [⟨1, 116, 0x400000, 4, 4096⟩, ⟨1, 120, 0x10000000, 4, 4096⟩] []) () =
      .ok (.ok r, as, ()) ∧ RightsAgree as := by
  have hv : elfHeaders (elfFile 0x400000 [⟨1, 116, 0x400000, 4, 4096⟩,
      ⟨1, 120, 0x10000000, 4, 4096⟩] []) =
        ([⟨1, 116, 0x400000, 4, 4096⟩, ⟨1, 120, 0x10000000, 4, 4096⟩], none) := by
    decide +kernel
  have hload := loadProgram_of_fits hv (by decide) (by decide)
    (rfl : kmallocs heapRoom () _ = some ())
  obtain ⟨L, hL, hiff⟩ := rights_agree_iff hload rfl
  refine ⟨_, _, hload, hiff.mpr ?_⟩
  obtain rfl : L = fileLayout ⟨1, 116, 0x400000, 4, 4096⟩ ⟨1, 120, 0x10000000, 4, 4096⟩ :=
    hL.unique rfl
  exact ⟨fun _ => by decide, fun _ => by decide⟩

/-- The text of `smallFile` has four bytes. After a fault of the first of them the processor
translates the address behind the last one; a fault of that address kills the process. -/
theorem rights_differ_behind_end : ∃ tr s k' k'' paddr, Run Sys.Step (.small 4) tr s ∧
    pageFrame 0x400004 = pageFrame 0x400000 ∧
    vmFault s.kernel .read 0x400000 = .ok (.ret none, k') ∧
    k'.tlb.translate false 0x400004 = .inr paddr ∧
    vmFault s.kernel .read 0x400004 = .ok (.exit (-1), k'') := by
  have heval : ((execute Sys.next [] (.small 4) [.build 1 Sys.smallFile]).bind fun r =>
      (vmFault r.2.kernel .read 0x400000).toOption.bind fun r' =>
        (vmFault r.2.kernel .read 0x400004).toOption.map fun r'' =>
          decide (r'.1 = .ret none ∧ r'.2.tlb.translate false 0x400004 = .inr (2 * pageSize + 4) ∧
            r''.1 = .exit (-1))) = some true := by
    decide +kernel
  obtain ⟨⟨tr, s⟩, hex, h⟩ := Option.bind_eq_some_iff.mp heval
  obtain ⟨⟨r', k'⟩, hb, h⟩ := Option.bind_eq_some_iff.mp h
  obtain ⟨⟨r'', k''⟩, ha, h⟩ := Option.map_eq_some_iff.mp h
  obtain ⟨rfl, htr, rfl⟩ := of_decide_eq_true h
  exact ⟨tr, s, k', k'', _, .of_execute hex Sys.step_of_next, by decide, eq_ok_of_toOption hb, htr,
    eq_ok_of_toOption ha⟩

end OS161
