import OS161.Basic

/-!
# `vm/segment.c`, `vm/addrspace.c` and the page-table index

An address space has three segments, text, data and stack, each a byte range with the
place of its contents in the ELF file. `as_define_region` fills the text segment, then
the data segment, in 32-bit arithmetic that nothing checks for wrap-around : a region
whose end wraps below its start is accepted, and holds no address at all
(`segmentDefine_wf`).

The page table has one entry for each page of each segment, text first, then data, then
stack. `Layout` is an address space with its three segments defined; `Layout.indexIn`
is the index `pt_get_index` computes, below the number of entries
(`Layout.indexIn_lt_npages`), and two addresses have the same index exactly when they lie
in the same segment and on the same page (`Layout.indexIn_inj`).

The kernel heap is a parameter `kmalloc` on a heap state `σ` : a call stops the machine,
returns `NULL`, or returns a block.
-/

namespace OS161

/-! ## The kernel heap -/

/-- What a call of `kmalloc` does. -/
inductive KmallocResult (σ : Type)
  | stop (why : Halt)
  | null (heap : σ)
  | block (heap : σ)

/-- `kmalloc` on a heap state. -/
abbrev Kmalloc (σ : Type) :=
  σ → ℕ → KmallocResult σ

variable {σ : Type}

/-! ## Segments -/

/-- `struct segment`. -/
structure Segment where
  segFirstVaddr : ℕ
  segLastVaddr : ℕ
  segElfSize : ℕ
  segElfOffset : ℕ
  segNpages : ℕ
  deriving DecidableEq, Repr

/-- `sizeof(struct segment)`. -/
def sizeofSegment : ℕ :=
  32

/-- `segment_create`. -/
def segmentCreate (kmalloc : Kmalloc σ) (heap : σ) : Except Halt (Segment × σ) :=
  match kmalloc heap sizeofSegment with
  | .stop why => .error why
  | .null _ => .error (.kassert "seg != NULL")
  | .block heap => .ok (⟨0, 0, 0, 0, 0⟩, heap)

/-- `segment_define`. -/
def segmentDefine (seg : Segment) (elfOffset baseVaddr firstVaddr lastVaddr npages elfsize : ℕ) :
    Except Halt Segment := do
  kassert (seg.segElfOffset = 0) "seg->seg_elf_offset == 0"
  kassert (seg.segFirstVaddr = 0) "seg->seg_first_vaddr == 0"
  kassert (seg.segLastVaddr = 0) "seg->seg_last_vaddr == 0"
  kassert (seg.segNpages = 0) "seg->seg_npages == 0"
  kassert (seg.segElfSize = 0) "seg->seg_elf_size == 0"
  kassert (baseVaddr < userspacetop) "base_vaddr < USERSPACETOP"
  kassert (firstVaddr < userspacetop) "first_vaddr < USERSPACETOP"
  kassert (lastVaddr ≤ userspacetop) "last_vaddr <= USERSPACETOP"
  let memsize := word32 (lastVaddr + 2 ^ 32 - firstVaddr)
  .ok { segFirstVaddr := firstVaddr
        segLastVaddr := lastVaddr
        segElfSize := if memsize < elfsize then memsize else elfsize
        segElfOffset := elfOffset
        segNpages := npages }

/-! ## Address spaces -/

/-- `struct addrspace`. Of the page table it holds the number of entries; the entries
are in the kernel state. -/
structure AddrSpace where
  asText : Option Segment
  asData : Option Segment
  asStack : Option Segment
  asPtable : Option ℕ
  deriving DecidableEq, Repr

/-- `as_create`, with memory for the structure. -/
def asCreate : AddrSpace :=
  ⟨none, none, none, none⟩

/-- `VM_STACKPAGES`. -/
def vmStackpages : ℕ :=
  18

/-- `USERSTACK`. -/
def userstack : ℕ :=
  userspacetop

/-- `as_define_region`. -/
def asDefineRegion (kmalloc : Kmalloc σ) (heap : σ) (as : AddrSpace)
    (firstVaddr memsize elfOffset elfsize : ℕ) : Except Halt (AddrSpace × σ) := do
  let lastVaddr := word32 (firstVaddr + memsize)
  kassert (memsize ≠ 0) "memsize != 0"
  let memsize := word32 (memsize + pageOffset firstVaddr)
  let npages := word32 (memsize + pageSize - 1) / pageSize
  let baseVaddr := pageFrame firstVaddr
  match as.asText, as.asData with
  | none, _ => do
    let (seg, heap) ← segmentCreate kmalloc heap
    let seg ← segmentDefine seg elfOffset baseVaddr firstVaddr lastVaddr npages elfsize
    .ok ({ as with asText := some seg }, heap)
  | some _, none => do
    let (seg, heap) ← segmentCreate kmalloc heap
    let seg ← segmentDefine seg elfOffset baseVaddr firstVaddr lastVaddr npages elfsize
    .ok ({ as with asData := some seg }, heap)
  | some _, some _ => .error (.panic "vm: Warning: too many regions")

/-- `as_define_stack`, with the initial stack pointer. -/
def asDefineStack (kmalloc : Kmalloc σ) (heap : σ) (as : AddrSpace) :
    Except Halt (AddrSpace × ℕ × σ) := do
  let (seg, heap) ← segmentCreate kmalloc heap
  let base := userstack - vmStackpages * pageSize
  let seg ← segmentDefine seg 0 base base userstack vmStackpages 0
  .ok ({ as with asStack := some seg }, userstack, heap)

/-- `sizeof(struct pt_entry)`. -/
def sizeofPtEntry : ℕ :=
  8

/-- `pt_create`, without the initial contents of the entries : the number of entries,
or `NULL`. -/
def ptCreate (kmalloc : Kmalloc σ) (heap : σ) (pagetableSize : ℕ) :
    Except Halt (Option ℕ × σ) :=
  match kmalloc heap (word32 (sizeofPtEntry * pagetableSize)) with
  | .stop why => .error why
  | .null heap => .ok (none, heap)
  | .block heap => .ok (some pagetableSize, heap)

/-- `as_define_pt`. -/
def asDefinePt (kmalloc : Kmalloc σ) (heap : σ) (as : AddrSpace) :
    Except Halt (AddrSpace × σ) := do
  let data ← deref as.asData
  let text ← deref as.asText
  let stack ← deref as.asStack
  let (ptable, heap) ← ptCreate kmalloc heap (data.segNpages + text.segNpages + stack.segNpages)
  .ok ({ as with asPtable := ptable }, heap)

/-- `SEGMENT_TEXT`, `SEGMENT_DATA`, `SEGMENT_STACK`. -/
inductive SegType
  | text
  | data
  | stack
  deriving DecidableEq, Repr

/-- `vaddr >= seg_first_vaddr && vaddr < seg_last_vaddr`. -/
def Segment.Contains (seg : Segment) (vaddr : ℕ) : Prop :=
  seg.segFirstVaddr ≤ vaddr ∧ vaddr < seg.segLastVaddr

instance (seg : Segment) (vaddr : ℕ) : Decidable (seg.Contains vaddr) :=
  inferInstanceAs (Decidable (_ ∧ _))

/-- `as_get_segment_type`, `none` standing for `0`. -/
def asGetSegmentType (as : AddrSpace) (vaddr : ℕ) : Except Halt (Option SegType) := do
  let text ← deref as.asText
  if text.Contains vaddr then
    return some .text
  let data ← deref as.asData
  if data.Contains vaddr then
    return some .data
  let stack ← deref as.asStack
  if stack.Contains vaddr then
    return some .stack
  return none

/-- `as_get_segment`. -/
def asGetSegment (as : AddrSpace) (vaddr : ℕ) : Except Halt Segment := do
  match ← asGetSegmentType as vaddr with
  | some .text => deref as.asText
  | some .data => deref as.asData
  | some .stack => deref as.asStack
  | none => .error (.panic "invalid segment type! (as_get_segment)")

/-- `ROUNDUP(a, PAGE_SIZE)` in 32 bits. -/
def roundup32 (a : ℕ) : ℕ :=
  word32 (word32 (a + pageSize - 1) / pageSize * pageSize)

/-- The address above the last byte of the segment that is in the ELF file. -/
def Segment.elfEnd (seg : Segment) : ℕ :=
  word32 (seg.segFirstVaddr + seg.segElfSize)

/-- `as_check_in_elf`. -/
def asCheckInElf (as : AddrSpace) (vaddr : ℕ) : Except Halt Bool := do
  let seg ← asGetSegment as vaddr
  kassert (seg.segFirstVaddr ≤ vaddr) "vaddr >= seg->seg_first_vaddr"
  kassert (vaddr < seg.segLastVaddr) "vaddr < seg->seg_last_vaddr"
  .ok (decide (vaddr < roundup32 seg.elfEnd))

/-- `pt_get_index`. -/
def ptGetIndex (as : AddrSpace) (vaddr : ℕ) : Except Halt ℕ := do
  match ← asGetSegmentType as vaddr with
  | some .text =>
    let text ← deref as.asText
    let index := (vaddr - pageFrame text.segFirstVaddr) / pageSize
    kassert (index < text.segNpages) "pt_index < as->as_text->seg_npages"
    .ok index
  | some .data =>
    let text ← deref as.asText
    let data ← deref as.asData
    let index := text.segNpages + (vaddr - pageFrame data.segFirstVaddr) / pageSize
    kassert (index < text.segNpages + data.segNpages)
      "pt_index < as->as_text->seg_npages + as->as_data->seg_npages"
    .ok index
  | some .stack =>
    let text ← deref as.asText
    let data ← deref as.asData
    let stack ← deref as.asStack
    let index := data.segNpages + text.segNpages +
      (vaddr - pageFrame stack.segFirstVaddr) / pageSize
    kassert (index < data.segNpages + text.segNpages + stack.segNpages)
      "pt_index < as->as_data->seg_npages + as->as_text->seg_npages + as->as_stack->seg_npages"
    .ok index
  | none => .error (.panic "invalid segment type! (pt_get_index)")

/-- What `as_load_page` asks of `load_page` : how many bytes to read from which offset
of the file, and where in the frame they go. -/
structure LoadPlan where
  offset : ℕ
  size : ℕ
  target : ℕ
  deriving DecidableEq, Repr

/-- The three cases of `as_load_page` : the first page of the segment, the last page with
bytes in the file, and a page in the middle. -/
def Segment.loadPlan (seg : Segment) (faultaddress : ℕ) : LoadPlan :=
  if pageFrame seg.segFirstVaddr = pageFrame faultaddress then
    { offset := seg.segElfOffset
      size :=
        if seg.segElfSize < pageSize - pageOffset seg.segFirstVaddr then seg.segElfSize
        else pageSize - pageOffset seg.segFirstVaddr
      target := pageOffset seg.segFirstVaddr }
  else if pageFrame seg.elfEnd = pageFrame faultaddress then
    { offset := seg.segElfOffset + pageFrame faultaddress - seg.segFirstVaddr
      size := pageOffset seg.elfEnd
      target := 0 }
  else
    { offset := seg.segElfOffset + pageFrame faultaddress - seg.segFirstVaddr
      size := pageSize
      target := 0 }

/-! ## Well-formed segments -/

/-- A segment that holds an address lies in user space, its page count covers it and its
part in the file fits in it. A segment whose end wrapped holds no address. -/
def Segment.WF (seg : Segment) : Prop :=
  seg.segFirstVaddr < seg.segLastVaddr → seg.segLastVaddr ≤ userspacetop ∧
    seg.segNpages = divroundup (seg.segLastVaddr - pageFrame seg.segFirstVaddr) pageSize ∧
    seg.segElfSize ≤ seg.segLastVaddr - seg.segFirstVaddr

/-- `as_define_region` computes a well-formed segment from every 32-bit region the
assertions of `segment_define` let through. -/
theorem segmentDefine_wf {seg seg' : Segment} {elfOffset firstVaddr memsize elfsize : ℕ}
    (hmem : memsize < 2 ^ 32)
    (h : segmentDefine seg elfOffset (pageFrame firstVaddr) firstVaddr
      (word32 (firstVaddr + memsize))
      (word32 (word32 (memsize + pageOffset firstVaddr) + pageSize - 1) / pageSize) elfsize =
        .ok seg') : seg'.WF := by
  simp only [segmentDefine, bind_eq_ok, kassert_eq_ok, Except.ok.injEq] at h
  obtain ⟨-, -, -, -, -, -, -, -, -, -, -, -, -, hlt, -, hle, rfl⟩ := h
  intro hwf
  have hsize : word32 (word32 (firstVaddr + memsize) + 2 ^ 32 - firstVaddr) =
      word32 (firstVaddr + memsize) - firstVaddr := by
    simp only [userspacetop, mipsKseg0, word32] at *
    omega
  refine ⟨hle, ?_, ?_⟩
  · simp only [userspacetop, mipsKseg0, word32, pageFrame, pageOffset, pageSize, divroundup] at *
    omega
  · rw [hsize]
    split_ifs with hc
    · exact le_rfl
    · exact not_lt.mp hc

/-! ## Layouts -/

/-- An address space with its three segments. -/
structure Layout where
  text : Segment
  data : Segment
  stack : Segment
  deriving DecidableEq, Repr

namespace Layout

variable (L : Layout)

/-- The segment of a type. -/
def seg : SegType → Segment
  | .text => L.text
  | .data => L.data
  | .stack => L.stack

/-- The number of page-table entries. -/
def npages : ℕ :=
  L.data.segNpages + L.text.segNpages + L.stack.segNpages

/-- The index of the first entry of a segment. -/
def base : SegType → ℕ
  | .text => 0
  | .data => L.text.segNpages
  | .stack => L.data.segNpages + L.text.segNpages

/-- The segment `as_get_segment_type` finds. -/
def segType (a : ℕ) : Option SegType :=
  if L.text.Contains a then some .text
  else if L.data.Contains a then some .data
  else if L.stack.Contains a then some .stack
  else none

/-- The page-table index of an address of segment `ty`. -/
def indexIn (ty : SegType) (a : ℕ) : ℕ :=
  L.base ty + (a - pageFrame (L.seg ty).segFirstVaddr) / pageSize

/-- Every segment is well formed. -/
structure WF : Prop where
  seg : ∀ ty, (L.seg ty).WF

/-- No two segments have addresses on one page. -/
def PagesDisjoint : Prop :=
  ∀ ty ty' a b, (L.seg ty).Contains a → (L.seg ty').Contains b → pageFrame a = pageFrame b →
    ty = ty'

/-- No address lies in two segments. -/
def BytesDisjoint : Prop :=
  ∀ ty ty' a, (L.seg ty).Contains a → (L.seg ty').Contains a → ty = ty'

/-- The byte of the initial memory image at address `a` of segment `ty` : from the file
where the segment has file bytes, zero elsewhere. -/
def imageByte (file : ℕ → UInt8) (ty : SegType) (a : ℕ) : UInt8 :=
  if a - (L.seg ty).segFirstVaddr < (L.seg ty).segElfSize then
    file ((L.seg ty).segElfOffset + (a - (L.seg ty).segFirstVaddr))
  else 0

variable {L} {ty ty' : SegType} {a b : ℕ}

theorem contains_of_segType (h : L.segType a = some ty) : (L.seg ty).Contains a := by
  unfold segType at h
  split_ifs at h with h1 h2 h3 <;> cases h <;> assumption

theorem PagesDisjoint.bytesDisjoint (hd : L.PagesDisjoint) : L.BytesDisjoint :=
  fun ty ty' a h h' => hd ty ty' a a h h' rfl

/-- Where no address lies in two segments, containing an address is being its segment. -/
theorem segType_of_mem (hd : L.BytesDisjoint) (h : (L.seg ty).Contains a) :
    L.segType a = some ty := by
  have key : ∀ ty', (L.seg ty').Contains a → ty' = ty := fun ty' h' => hd _ _ a h' h
  unfold segType
  split_ifs with h1 h2 h3
  · rw [key .text h1]
  · rw [key .data h2]
  · rw [key .stack h3]
  · cases ty
    · exact absurd h h1
    · exact absurd h h2
    · exact absurd h h3

theorem segType_of_contains (hd : L.PagesDisjoint) (h : (L.seg ty).Contains a) :
    L.segType a = some ty :=
  segType_of_mem hd.bytesDisjoint h

/-- The page offset of an address within its segment is below the page count. -/
theorem div_lt_npages {seg : Segment} (hw : seg.WF) (h : seg.Contains a) :
    (a - pageFrame seg.segFirstVaddr) / pageSize < seg.segNpages := by
  obtain ⟨h1, h2⟩ := h
  obtain ⟨-, hn, -⟩ := hw (by omega)
  simp only [hn, pageFrame, pageSize, divroundup]
  omega

theorem indexIn_lt (hw : L.WF) (h : (L.seg ty).Contains a) :
    L.indexIn ty a < L.base ty + (L.seg ty).segNpages := by
  have := div_lt_npages (hw.seg ty) h
  unfold indexIn
  omega

theorem base_add_le (ty : SegType) : L.base ty + (L.seg ty).segNpages ≤ L.npages := by
  cases ty <;> simp only [base, seg, npages] <;> omega

/-- The index is that of an entry of the table. -/
theorem indexIn_lt_npages (hw : L.WF) (h : (L.seg ty).Contains a) : L.indexIn ty a < L.npages :=
  lt_of_lt_of_le (indexIn_lt hw h) (base_add_le ty)

/-- The entries of different segments are different. -/
theorem segType_eq_of_indexIn (hw : L.WF) (h : (L.seg ty).Contains a)
    (h' : (L.seg ty').Contains b) (heq : L.indexIn ty a = L.indexIn ty' b) : ty = ty' := by
  have h1 := indexIn_lt hw h
  have h2 := indexIn_lt hw h'
  have h3 : L.base ty ≤ L.indexIn ty a := Nat.le_add_right _ _
  have h4 : L.base ty' ≤ L.indexIn ty' b := Nat.le_add_right _ _
  cases ty <;> cases ty' <;> simp only [base, seg] at h1 h2 h3 h4 ⊢ <;> omega

/-- Two addresses have the same entry exactly when they lie in the same segment and on
the same page. -/
theorem indexIn_inj (hw : L.WF) (h : (L.seg ty).Contains a) (h' : (L.seg ty').Contains b) :
    L.indexIn ty a = L.indexIn ty' b ↔ ty = ty' ∧ pageFrame a = pageFrame b := by
  constructor
  · intro heq
    obtain rfl := segType_eq_of_indexIn hw h h' heq
    refine ⟨rfl, ?_⟩
    have h1 := h.1
    have h2 := h'.1
    simp only [indexIn, pageFrame, pageSize] at heq h1 h2 ⊢
    omega
  · rintro ⟨rfl, hp⟩
    have h1 := h.1
    have h2 := h'.1
    simp only [indexIn, pageFrame, pageSize] at hp h1 h2 ⊢
    omega

end Layout

/-! ## The functions on a complete address space -/

/-- `as` has the segments of `L` and a page table with an entry for each page. -/
def AddrSpace.Has (as : AddrSpace) (L : Layout) : Prop :=
  as = ⟨some L.text, some L.data, some L.stack, some L.npages⟩

section Has

variable {as : AddrSpace} {L : Layout} {a : ℕ} {ty : SegType}

theorem AddrSpace.Has.unique {L' : Layout} (h : as.Has L) (h' : as.Has L') : L = L' := by
  obtain ⟨t', d', s'⟩ := L'
  have := h.symm.trans h'
  obtain ⟨rfl, rfl, rfl, -⟩ := this
  rfl

theorem asGetSegmentType_of_has (h : as.Has L) : asGetSegmentType as a = .ok (L.segType a) := by
  subst h
  simp only [asGetSegmentType, deref_some, ok_bind, Layout.segType]
  split_ifs <;> rfl

theorem asGetSegment_of_has (h : as.Has L) (ht : L.segType a = some ty) :
    asGetSegment as a = .ok (L.seg ty) := by
  rw [asGetSegment, asGetSegmentType_of_has h, ok_bind, ht]
  subst h
  cases ty <;> rfl

theorem asCheckInElf_of_has (h : as.Has L) (ht : L.segType a = some ty) :
    asCheckInElf as a = .ok (decide (a < roundup32 (L.seg ty).elfEnd)) := by
  obtain ⟨h1, h2⟩ := Layout.contains_of_segType ht
  rw [asCheckInElf, asGetSegment_of_has h ht, ok_bind, kassert_pos h1, ok_bind, kassert_pos h2,
    ok_bind]

theorem ptGetIndex_of_has (h : as.Has L) (hw : L.WF) (ht : L.segType a = some ty) :
    ptGetIndex as a = .ok (L.indexIn ty a) := by
  have hlt := Layout.indexIn_lt hw (Layout.contains_of_segType ht)
  rw [ptGetIndex, asGetSegmentType_of_has h, ok_bind, ht]
  subst h
  cases ty with
  | text =>
    simp only [Layout.indexIn, Layout.base, Layout.seg, Nat.zero_add] at hlt ⊢
    simp only [deref_some, ok_bind, kassert_pos hlt]
  | data | stack =>
    simp only [Layout.indexIn, Layout.base, Layout.seg] at hlt ⊢
    simp only [deref_some, ok_bind, kassert_pos hlt]

end Has

/-! ## What a page load puts where -/

namespace Segment

variable {seg : Segment} {a a₀ : ℕ}

theorem elfEnd_eq (hw : seg.WF) (h : seg.Contains a) :
    seg.elfEnd = seg.segFirstVaddr + seg.segElfSize := by
  obtain ⟨h1, h2⟩ := h
  obtain ⟨h3, -, h4⟩ := hw (by omega)
  simp only [elfEnd, word32, userspacetop, mipsKseg0] at *
  omega

theorem roundup32_elfEnd (hw : seg.WF) (h : seg.Contains a) :
    roundup32 seg.elfEnd = (seg.segFirstVaddr + seg.segElfSize + 4095) / 4096 * 4096 := by
  rw [elfEnd_eq hw h]
  obtain ⟨h1, h2⟩ := h
  obtain ⟨h3, -, h4⟩ := hw (by omega)
  simp only [roundup32, word32, pageSize, userspacetop, mipsKseg0] at *
  omega

/-- A page that `as_check_in_elf` does not find in the file has no byte in it. -/
theorem not_lt_elfSize (hw : seg.WF) (h₀ : seg.Contains a₀)
    (hp : pageFrame a = pageFrame a₀) (hne : ¬a₀ < roundup32 seg.elfEnd) :
    ¬a - seg.segFirstVaddr < seg.segElfSize := by
  rw [roundup32_elfEnd hw h₀] at hne
  simp only [pageFrame] at hp
  omega

theorem loadPlan_target_lt (seg : Segment) (a₀ : ℕ) : (seg.loadPlan a₀).target < pageSize := by
  unfold loadPlan
  split_ifs
  · exact pageOffset_lt _
  · exact pageOffset_lt _
  · exact pageSize_pos
  · exact pageSize_pos

/-- The load stays inside the frame. -/
theorem loadPlan_le (seg : Segment) (a₀ : ℕ) :
    (seg.loadPlan a₀).target + (seg.loadPlan a₀).size ≤ pageSize := by
  unfold loadPlan
  split_ifs <;> simp only [pageSize, pageOffset] at * <;> omega

/-- A byte of the page that the load writes is the byte of the file that belongs there,
and a byte it leaves alone has no byte in the file. -/
theorem loadPlan_byte (hw : seg.WF) (h : seg.Contains a) (h₀ : seg.Contains a₀)
    (hp : pageFrame a = pageFrame a₀) (hin : a₀ < roundup32 seg.elfEnd) :
    let plan := seg.loadPlan a₀
    if plan.target ≤ pageOffset a ∧ pageOffset a < plan.target + plan.size then
      a - seg.segFirstVaddr < seg.segElfSize ∧
        plan.offset + (pageOffset a - plan.target) = seg.segElfOffset + (a - seg.segFirstVaddr)
    else ¬a - seg.segFirstVaddr < seg.segElfSize := by
  rw [roundup32_elfEnd hw h₀] at hin
  have h1 := h.1
  have hend := elfEnd_eq hw h₀
  obtain ⟨plan, hplan⟩ : ∃ plan, plan = seg.loadPlan a₀ := ⟨_, rfl⟩
  rw [← hplan]
  -- One case for each page kind and, on the first page, each bound on the size.
  unfold loadPlan at hplan
  split_ifs at hplan with hf hs hl <;> subst hplan <;> dsimp only <;> split_ifs with hin' <;>
    simp only [hend, pageFrame, pageOffset, pageSize] at * <;> omega

end Segment

end OS161
