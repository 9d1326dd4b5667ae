import OS161.PageIndex

/-!
# Loading page by page and loading at once

Without demand paging `load_segment` reads the file part of a segment into the memory of the
process with one `VOP_READ`. With it, `vm_fault` reads one page at a time into a cleared
frame, and `as_load_page` computes what to read from the kind of the page : the first page of
the segment, the last one with bytes in the file, or one in between.

A byte of the page is read exactly if it lies in the file part of the segment, and then from
its place in the file (`Segment.loadPlan_covers`). So the frame is the page that
`load_segment` would have filled (`demandLoad_eq_loadSegment`), whichever address of the page
the fault was at.
-/

namespace OS161

variable {σ : Type}

/-! ## The two loaders -/

/-- `load_segment` of the build without demand paging, on the memory of the process by virtual
address : its result, `none` for `0`, and the memory it leaves. A `VOP_READ` that fails may
have moved a part of the bytes; they are left out. -/
def loadSegment (v : Vnode) (mem : ℕ → UInt8) (offset vaddr memsize filesize : ℕ) :
    Option Errno × (ℕ → UInt8) :=
  let filesize := if memsize < filesize then memsize else filesize
  match vopRead v offset filesize with
  | .error e => (some e, mem)
  | .ok moved =>
    (if moved ≠ filesize then some .ENOEXEC else none, moveBytes v.byte offset mem vaddr moved)

/-- The `NOT_LOADED` branch of `vm_fault`, from the frame at `paddr` on. -/
def demandLoad (k : Kernel) (fp : FaultPage) (faultaddress paddr : ℕ) : Except Halt Kernel := do
  let (plan, k) ← faultLoadBegin k fp faultaddress paddr
  faultLoadEnd k fp plan

/-! ## What a page load covers -/

namespace Segment

/-- The addresses whose bytes are in the file. -/
def InFile (seg : Segment) (x : ℕ) : Prop :=
  seg.segFirstVaddr ≤ x ∧ x < seg.segFirstVaddr + seg.segElfSize

instance (seg : Segment) (x : ℕ) : Decidable (seg.InFile x) :=
  inferInstanceAs (Decidable (_ ∧ _))

variable {seg : Segment} {a x : ℕ}

/-- A page that `as_check_in_elf` does not find in the file has no byte in it. -/
theorem not_inFile (hw : seg.WF) (ha : seg.Contains a) (hp : pageFrame x = pageFrame a)
    (hne : ¬a < roundup32 seg.elfEnd) : ¬seg.InFile x := by
  rw [roundup32_elfEnd hw ha] at hne
  rintro ⟨h1, h2⟩
  simp only [pageFrame] at hp
  omega

/-- The load writes the bytes of the page that are in the file, each from its place there. -/
theorem loadPlan_covers (hw : seg.WF) (ha : seg.Contains a) (hp : pageFrame x = pageFrame a)
    (hin : a < roundup32 seg.elfEnd) :
    ((seg.loadPlan a).target ≤ pageOffset x ∧
        pageOffset x < (seg.loadPlan a).target + (seg.loadPlan a).size ↔ seg.InFile x) ∧
      (seg.InFile x → (seg.loadPlan a).offset + (pageOffset x - (seg.loadPlan a).target) =
        seg.segElfOffset + (x - seg.segFirstVaddr)) := by
  rw [roundup32_elfEnd hw ha] at hin
  have h1 := ha.1
  have hend := elfEnd_eq hw ha
  obtain ⟨plan, hplan⟩ : ∃ plan, plan = seg.loadPlan a := ⟨_, rfl⟩
  rw [← hplan]
  unfold loadPlan at hplan
  -- One case for each page kind and, on the first page, each bound on the size.
  split_ifs at hplan <;> subst hplan <;>
    simp only [InFile, hend, pageFrame, pageOffset, pageSize] at * <;> omega

/-- The load reads nothing beyond the file part of the segment. -/
theorem loadPlan_end (hw : seg.WF) (ha : seg.Contains a) (hin : a < roundup32 seg.elfEnd) :
    (seg.loadPlan a).size = 0 ∨
      (seg.loadPlan a).offset + (seg.loadPlan a).size ≤ seg.segElfOffset + seg.segElfSize := by
  rw [roundup32_elfEnd hw ha] at hin
  have h1 := ha.1
  have hend := elfEnd_eq hw ha
  obtain ⟨plan, hplan⟩ : ∃ plan, plan = seg.loadPlan a := ⟨_, rfl⟩
  rw [← hplan]
  unfold loadPlan at hplan
  split_ifs at hplan <;> subst hplan <;>
    simp only [hend, pageFrame, pageOffset, pageSize] at * <;> omega

end Segment

section Page

variable {L : Layout} {fp : FaultPage} {va f : ℕ} {v : Vnode} {ram : ℕ → UInt8}

/-- A byte of the frame after the load. -/
theorem loadRam_page (hw : L.WF) (hc : (L.seg fp.segType).Contains va) (hst : fp.segType ≠ .stack)
    {o : ℕ} (ho : o < pageSize) :
    LoadPlan.loadRam v ram (fp.plan L va f) (f * pageSize + o) =
      if (L.seg fp.segType).InFile (pageFrame va + o) then
        v.byte ((L.seg fp.segType).segElfOffset +
          (pageFrame va + o - (L.seg fp.segType).segFirstVaddr))
      else ram (f * pageSize + o) := by
  have hpage : pageFrame (pageFrame va + o) = pageFrame va := by
    simp only [pageFrame, pageSize] at *
    omega
  have hoff : pageOffset (pageFrame va + o) = o := by
    simp only [pageFrame, pageOffset, pageSize] at *
    omega
  unfold FaultPage.plan
  by_cases hin : va < roundup32 (L.seg fp.segType).elfEnd
  · obtain ⟨hcov, hbyte⟩ := Segment.loadPlan_covers (hw.seg _) hc hpage hin
    rw [if_pos ⟨hst, hin⟩]
    dsimp only [LoadPlan.loadRam, moveBytes]
    by_cases hf : (L.seg fp.segType).InFile (pageFrame va + o)
    · have hcov' := hcov.mpr hf
      rw [if_pos (by omega), if_pos hf, ← hbyte hf]
      congr 1
      omega
    · have hcov' := mt hcov.mp hf
      rw [if_neg (by omega), if_neg hf]
  · rw [if_neg fun h => hin h.2, if_neg (Segment.not_inFile (hw.seg _) hc hpage hin)]
    rfl

/-- The load stays inside the frame. -/
theorem loadRam_outside {x : ℕ}
    (hx : x < f * pageSize ∨ f * pageSize + pageSize ≤ x) :
    LoadPlan.loadRam v ram (fp.plan L va f) x = ram x := by
  have hle := (L.seg fp.segType).loadPlan_le va
  unfold FaultPage.plan
  split_ifs with hin
  · dsimp only [LoadPlan.loadRam, moveBytes]
    rw [if_neg (by omega)]
  · rfl

/-- The load does not depend on the address of the fault on its page. -/
theorem loadRam_congr {va' : ℕ} (hw : L.WF) (hc : (L.seg fp.segType).Contains va)
    (hc' : (L.seg fp.segType).Contains va') (hst : fp.segType ≠ .stack)
    (hp : pageFrame va' = pageFrame va) :
    LoadPlan.loadRam v ram (fp.plan L va' f) = LoadPlan.loadRam v ram (fp.plan L va f) := by
  funext x
  by_cases hx : x < f * pageSize ∨ f * pageSize + pageSize ≤ x
  · rw [loadRam_outside hx, loadRam_outside hx]
  · obtain ⟨o, rfl⟩ := Nat.exists_eq_add_of_le (show f * pageSize ≤ x by omega)
    rw [loadRam_page hw hc' hst (by omega), loadRam_page hw hc hst (by omega), hp]

/-- A file with the whole file part of the segment is long enough for every page. -/
theorem faultLoadEnd_eq (k : Kernel) (hw : L.WF) (hc : (L.seg fp.segType).Contains va)
    (hio : ∀ o n, fp.proc.pVnode.ioError o n = none)
    (hlen : (L.seg fp.segType).segElfOffset + (L.seg fp.segType).segElfSize ≤
      fp.proc.pVnode.contents.length) :
    faultLoadEnd k fp (fp.plan L va f) =
      .ok { k with ram := LoadPlan.loadRam fp.proc.pVnode k.ram (fp.plan L va f) } := by
  unfold FaultPage.plan
  split_ifs with hin
  · have hend := Segment.loadPlan_end (hw.seg _) hc hin.2
    have hread : vopRead fp.proc.pVnode ((L.seg fp.segType).loadPlan va).offset
        ((L.seg fp.segType).loadPlan va).size = .ok ((L.seg fp.segType).loadPlan va).size := by
      rw [vopRead, hio]
      exact congrArg Except.ok (by omega)
    simp only [faultLoadEnd, loadPage, hread, ne_eq, not_true, if_false]
    rfl
  · rfl

theorem demandLoad_eq (k : Kernel) (has : fp.proc.pAddrspace.Has L) (hw : L.WF)
    (hseg : L.segType va = some fp.segType) (hrow : fp.ptRow = ⟨fp.p, L.indexIn fp.segType va⟩)
    (hlt : f < 2 ^ 20) (hio : ∀ o n, fp.proc.pVnode.ioError o n = none)
    (hlen : (L.seg fp.segType).segElfOffset + (L.seg fp.segType).segElfSize ≤
      fp.proc.pVnode.contents.length) :
    ∃ k', demandLoad k fp va (f * pageSize) = .ok k' ∧
      k'.ram = LoadPlan.loadRam fp.proc.pVnode k.ram (fp.plan L va f) := by
  obtain ⟨stats, hbegin⟩ := faultLoadBegin_of_has k has hw hseg hrow hlt
  rw [demandLoad, hbegin, ok_bind]
  exact ⟨_, faultLoadEnd_eq _ hw (Layout.contains_of_segType hseg) hio hlen, rfl⟩

end Page

/-! ## The equality -/

/-- A segment that does not wrap is loaded as its header says. -/
theorem loadSegment_eq {ph : ElfPhdr} {v : Vnode} (hfit : ph.Fits)
    (hio : ∀ o n, v.ioError o n = none)
    (hlen : ph.pOffset + min ph.pFilesz ph.pMemsz ≤ v.contents.length) :
    loadSegment v (fun _ => 0) ph.pOffset ph.pVaddr ph.pMemsz ph.pFilesz =
      (none, fun x => if ph.segment.InFile x then
        v.byte (ph.segment.segElfOffset + (x - ph.segment.segFirstVaddr)) else 0) ∧
    ph.segment.segElfOffset + ph.segment.segElfSize ≤ v.contents.length := by
  have hsize : word32 (word32 (ph.pVaddr + ph.pMemsz) + 2 ^ 32 - ph.pVaddr) = ph.pMemsz := by
    have := hfit.2
    simp only [word32, userspacetop, mipsKseg0] at *
    omega
  have helf : ph.segment.segElfSize = if ph.pMemsz < ph.pFilesz then ph.pMemsz else ph.pFilesz := by
    simp only [ElfPhdr.segment, hsize]
  have hmin : ph.segment.segElfSize = min ph.pFilesz ph.pMemsz := by
    rw [helf]
    split_ifs <;> omega
  have hread : vopRead v ph.pOffset ph.segment.segElfSize = .ok ph.segment.segElfSize := by
    rw [vopRead, hio]
    exact congrArg Except.ok (by omega)
  refine ⟨?_, hmin ▸ hlen⟩
  simp only [loadSegment, ← helf, hread, ne_eq, not_true, if_false]
  rfl

/-- The header a segment of the file was defined from. -/
def headerOf (t d : ElfPhdr) : SegType → Option ElfPhdr
  | .text => some t
  | .data => some d
  | .stack => none

/-- The address space that two regions, the stack and the page table leave. -/
theorem has_fileLayout {kmalloc : Kmalloc σ} {heap heap₁ heap₂ heap₃ heap₄ : σ} {t d : ElfPhdr}
    {as₁ as₂ as₃ as : AddrSpace} {stackptr : ℕ}
    (ht : asDefineRegion kmalloc heap asCreate t.pVaddr t.pMemsz t.pOffset t.pFilesz =
      .ok (as₁, heap₁))
    (hd : asDefineRegion kmalloc heap₁ as₁ d.pVaddr d.pMemsz d.pOffset d.pFilesz =
      .ok (as₂, heap₂))
    (hs : asDefineStack kmalloc heap₂ as₂ = .ok (as₃, stackptr, heap₃))
    (hpt : asDefinePt kmalloc heap₃ as₃ = .ok (as, heap₄)) (htable : as.asPtable.isSome) :
    as.Has (fileLayout t d) ∧ t.Accepted ∧ d.Accepted := by
  rw [asDefineRegion_text rfl] at ht
  obtain ⟨hta, -, rfl⟩ := ht
  rw [asDefineRegion_data rfl rfl] at hd
  obtain ⟨hda, -, rfl⟩ := hd
  rw [asDefineStack_eq_ok] at hs
  obtain ⟨-, -, rfl⟩ := hs
  exact ⟨asDefinePt_table _ (fileLayout t d) rfl rfl rfl hpt htable, hta, hda⟩

/-- The page that demand paging puts into a cleared frame is the page `load_segment` fills, for
every fault address on it, and nothing outside the frame is written. -/
theorem demandLoad_eq_loadSegment {kmalloc : Kmalloc σ} {heap heap₁ heap₂ heap₃ heap₄ : σ}
    {t d ph : ElfPhdr} {as₁ as₂ as₃ as : AddrSpace} {stackptr : ℕ} {ty : SegType}
    (ht : asDefineRegion kmalloc heap asCreate t.pVaddr t.pMemsz t.pOffset t.pFilesz =
      .ok (as₁, heap₁))
    (hd : asDefineRegion kmalloc heap₁ as₁ d.pVaddr d.pMemsz d.pOffset d.pFilesz =
      .ok (as₂, heap₂))
    (hs : asDefineStack kmalloc heap₂ as₂ = .ok (as₃, stackptr, heap₃))
    (hpt : asDefinePt kmalloc heap₃ as₃ = .ok (as, heap₄)) (htable : as.asPtable.isSome)
    (ht32 : t.pMemsz < 2 ^ 32) (hd32 : d.pMemsz < 2 ^ 32)
    (hph : headerOf t d ty = some ph) (htop : ph.pVaddr + ph.pMemsz ≤ userspacetop)
    {fp : FaultPage} (has : fp.proc.pAddrspace = as) (hty : fp.segType = ty)
    (hio : ∀ o n, fp.proc.pVnode.ioError o n = none)
    (hlen : ph.pOffset + min ph.pFilesz ph.pMemsz ≤ fp.proc.pVnode.contents.length)
    {va : ℕ} (hva : asGetSegmentType as va = .ok (some ty))
    (hrow : ptGetEntry fp.p as va = .ok fp.ptRow)
    {k : Kernel} {f : ℕ} (hf : f < 2 ^ 20) (hzero : ∀ o < pageSize, k.ram (f * pageSize + o) = 0) :
    ∃ k' mem, demandLoad k fp va (f * pageSize) = .ok k' ∧
      loadSegment fp.proc.pVnode (fun _ => 0) ph.pOffset ph.pVaddr ph.pMemsz ph.pFilesz =
        (none, mem) ∧
      (∀ o < pageSize, k'.ram (f * pageSize + o) = mem (pageFrame va + o)) ∧
      (∀ x, x < f * pageSize ∨ f * pageSize + pageSize ≤ x → k'.ram x = k.ram x) ∧
      ∀ va', asGetSegmentType as va' = .ok (some ty) → pageFrame va' = pageFrame va →
        ptGetEntry fp.p as va' = .ok fp.ptRow ∧
          ∃ k'', demandLoad k fp va' (f * pageSize) = .ok k'' ∧ k''.ram = k'.ram := by
  subst hty
  obtain ⟨hL, hta, hda⟩ := has_fileLayout ht hd hs hpt htable
  have hw : (fileLayout t d).WF := by
    refine ⟨fun ty => ?_⟩
    cases ty with
    | text => exact ElfPhdr.segment_wf hta ht32
    | data => exact ElfPhdr.segment_wf hda hd32
    | stack => exact stackSegment_wf
  have hseg : (fileLayout t d).seg fp.segType = ph.segment ∧ ph.Fits ∧ fp.segType ≠ .stack := by
    cases hst : fp.segType with
    | text =>
      obtain rfl : t = ph := by simpa [headerOf, hst] using hph
      exact ⟨rfl, ⟨hta.1, htop⟩, by decide⟩
    | data =>
      obtain rfl : d = ph := by simpa [headerOf, hst] using hph
      exact ⟨rfl, ⟨hda.1, htop⟩, by decide⟩
    | stack => simp [headerOf, hst] at hph
  obtain ⟨hsegment, hfit, hst⟩ := hseg
  obtain ⟨hmem, hlen'⟩ := loadSegment_eq hfit hio hlen
  rw [← hsegment] at hmem hlen'
  -- Every fault address on the page finds the same entry.
  have hlook : ∀ va', asGetSegmentType as va' = .ok (some fp.segType) →
      (fileLayout t d).segType va' = some fp.segType ∧
        ptGetEntry fp.p as va' = .ok ⟨fp.p, (fileLayout t d).indexIn fp.segType va'⟩ := by
    intro va' hva'
    rw [asGetSegmentType_of_has hL] at hva'
    have hs' := Except.ok.inj hva'
    exact ⟨hs', by rw [ptGetEntry, ptGetIndex_of_has hL hw hs', ok_bind]⟩
  obtain ⟨hva1, hrow1⟩ := hlook va hva
  obtain hrow2 := Except.ok.inj (hrow.symm.trans hrow1)
  have hc := Layout.contains_of_segType hva1
  obtain ⟨k', hk', hram⟩ := demandLoad_eq k (has ▸ hL) hw hva1 hrow2 hf hio hlen'
  refine ⟨k', _, hk', hmem, fun o ho => ?_, fun x hx => ?_, fun va' hva' hp => ?_⟩
  · rw [hram, loadRam_page hw hc hst ho, hzero o ho]
  · rw [hram, loadRam_outside hx]
  · obtain ⟨hva2, hrow3⟩ := hlook va' hva'
    have hc' := Layout.contains_of_segType hva2
    have hidx := (Layout.indexIn_inj hw hc' hc).mpr ⟨rfl, hp⟩
    rw [hidx, ← hrow2] at hrow3
    obtain ⟨k'', hk'', hram'⟩ := demandLoad_eq k (has ▸ hL) hw hva2 (hidx ▸ hrow2) hf hio hlen'
    exact ⟨hrow3, k'', hk'', by rw [hram', hram, loadRam_congr hw hc hc' hst hp]⟩

/-- A file of 64 bytes, numbered. -/
def countingFile : Vnode :=
  ⟨(List.range 64).map UInt8.ofNat, fun _ _ => none⟩

/-- A text segment of 32 bytes, 16 of them on its second page : a fault there reads the other
half of its part of the file. -/
theorem demandLoad_second_page :
    let as : AddrSpace := ⟨some (ElfPhdr.segment ⟨1, 0, 0x400ff0, 32, 32⟩),
      some (ElfPhdr.segment ⟨1, 32, 0x402010, 4, 8⟩), some stackSegment, some 21⟩
    let fp : FaultPage := ⟨1, ⟨as, countingFile⟩, .text, ⟨1, 1⟩⟩
    ∃ k', demandLoad (Sys.small 4).kernel fp 0x401004 (3 * pageSize) = .ok k' ∧
      k'.ram (3 * pageSize) = 16 ∧ k'.ram (3 * pageSize + 15) = 31 ∧
      k'.ram (3 * pageSize + 16) = 0 := by
  intro as fp
  have ht : asDefineRegion (fun _ _ => .block () : Kmalloc Unit) () asCreate 0x400ff0 32 0 32 =
      .ok (⟨as.asText, none, none, none⟩, ()) := rfl
  have hva : asGetSegmentType as 0x401004 = .ok (some .text) := rfl
  obtain ⟨k', mem, hk', hmem, hpage, -⟩ := demandLoad_eq_loadSegment
    (t := ⟨1, 0, 0x400ff0, 32, 32⟩) (d := ⟨1, 32, 0x402010, 4, 8⟩) ht rfl rfl rfl rfl (by decide)
    (by decide) (rfl : headerOf _ _ .text = _) (by decide) (rfl : fp.proc.pAddrspace = as) rfl
    (fun _ _ => rfl) (by decide) hva rfl (k := (Sys.small 4).kernel) (f := 3) (by decide)
    fun _ _ => rfl
  obtain rfl := (Prod.mk.inj hmem).2
  refine ⟨k', hk', ?_, ?_, ?_⟩
  · exact (hpage 0 (by decide)).trans (by decide +kernel)
  · exact (hpage 15 (by decide)).trans (by decide +kernel)
  · exact (hpage 16 (by decide)).trans (by decide +kernel)

end OS161
