import OS161.LoadElf

/-!
# Which files load safely

`LoadSafe` is what the callers of `load_elf` rely on : the set-up of an address space ends
with an error code, or with three segments that lie in user space and a page table with
an entry for each of their pages. It does not hold of every file. A header with
`p_memsz = 0`, or one that reaches past `USERSPACETOP`, fails an assertion; a third
loadable header panics; with fewer than two, `as_define_pt` reads through a `NULL` segment;
and a region whose end wraps around `2 ^ 32` is accepted with its end below its start.

`loadProgram_safe_iff` gives the files that do load safely, for every state of the kernel
heap. The heap counts, because a page table is one contiguous allocation and the
allocator panics when it finds no room.
-/

namespace OS161

variable {σ : Type}

/-! ## One region -/

namespace ElfPhdr

variable (ph : ElfPhdr)

/-- The region passes the assertions of `as_define_region` and `segment_define`, which
test its end after the wrap. -/
def Accepted : Prop :=
  ph.pMemsz ≠ 0 ∧ ph.pVaddr < userspacetop ∧ word32 (ph.pVaddr + ph.pMemsz) ≤ userspacetop

/-- The region is not empty and ends in user space. -/
def Fits : Prop :=
  ph.pMemsz ≠ 0 ∧ ph.pVaddr + ph.pMemsz ≤ userspacetop

/-- The number of pages the region touches. -/
def npages : ℕ :=
  divroundup (pageOffset ph.pVaddr + ph.pMemsz) pageSize

/-- The segment `as_define_region` computes. -/
def segment : Segment where
  segFirstVaddr := ph.pVaddr
  segLastVaddr := word32 (ph.pVaddr + ph.pMemsz)
  segElfSize :=
    let memsize := word32 (word32 (ph.pVaddr + ph.pMemsz) + 2 ^ 32 - ph.pVaddr)
    if memsize < ph.pFilesz then memsize else ph.pFilesz
  segElfOffset := ph.pOffset
  segNpages := word32 (word32 (ph.pMemsz + pageOffset ph.pVaddr) + pageSize - 1) / pageSize

instance : Decidable ph.Accepted :=
  inferInstanceAs (Decidable (_ ∧ _))

instance : Decidable ph.Fits :=
  inferInstanceAs (Decidable (_ ∧ _))

variable {ph}

theorem Fits.accepted (h : ph.Fits) : ph.Accepted := by
  obtain ⟨h0, hle⟩ := h
  refine ⟨h0, ?_, ?_⟩
  · omega
  · simp only [word32, userspacetop, mipsKseg0] at *
    omega

/-- A region that fits is the segment from `p_vaddr` to `p_vaddr + p_memsz`. -/
theorem Fits.segment (h : ph.Fits) : ph.segment.segFirstVaddr + ph.pMemsz = ph.segment.segLastVaddr
    ∧ ph.segment.segLastVaddr ≤ userspacetop ∧ ph.segment.segElfSize ≤ ph.pMemsz ∧
      ph.segment.segNpages = ph.npages := by
  obtain ⟨h0, hle⟩ := h
  have hsize : word32 (word32 (ph.pVaddr + ph.pMemsz) + 2 ^ 32 - ph.pVaddr) = ph.pMemsz := by
    simp only [word32, userspacetop, mipsKseg0] at *
    omega
  refine ⟨?_, ?_, ?_, ?_⟩
  · simp only [ElfPhdr.segment, word32, userspacetop, mipsKseg0] at *
    omega
  · simp only [ElfPhdr.segment, word32, userspacetop, mipsKseg0] at *
    omega
  · simp only [ElfPhdr.segment, hsize]
    split_ifs with hc
    · exact le_rfl
    · exact not_lt.mp hc
  · simp only [ElfPhdr.segment, npages, divroundup, word32, pageOffset, pageSize, userspacetop,
      mipsKseg0] at *
    omega

/-- An accepted region whose segment ends `p_memsz` above its start in user space fits. -/
theorem fits_of_segment (ha : ph.Accepted)
    (h : ph.segment.segFirstVaddr + ph.pMemsz = ph.segment.segLastVaddr) : ph.Fits := by
  refine ⟨ha.1, ?_⟩
  change ph.pVaddr + ph.pMemsz = word32 (ph.pVaddr + ph.pMemsz) at h
  rw [h]
  exact ha.2.2

end ElfPhdr

/-- A list of `kmalloc` calls, all of which return a block. -/
def kmallocs (kmalloc : Kmalloc σ) : σ → List ℕ → Option σ
  | heap, [] => some heap
  | heap, size :: sizes =>
    match kmalloc heap size with
    | .block heap => kmallocs kmalloc heap sizes
    | _ => none

section Region

variable {kmalloc : Kmalloc σ} {heap : σ} {as : AddrSpace}

theorem segmentCreate_eq_ok {r : Segment × σ} : segmentCreate kmalloc heap = .ok r ↔
    kmalloc heap sizeofSegment = .block r.2 ∧ r.1 = ⟨0, 0, 0, 0, 0⟩ := by
  obtain ⟨seg, heap'⟩ := r
  unfold segmentCreate
  cases kmalloc heap sizeofSegment with
  | stop why => simp
  | null heap => simp
  | block heap =>
    simp only [Except.ok.injEq, Prod.mk.injEq, KmallocResult.block.injEq]
    tauto

theorem segmentDefine_region {ph : ElfPhdr} {seg : Segment} :
    segmentDefine ⟨0, 0, 0, 0, 0⟩ ph.pOffset (pageFrame ph.pVaddr) ph.pVaddr
        (word32 (ph.pVaddr + ph.pMemsz))
        (word32 (word32 (ph.pMemsz + pageOffset ph.pVaddr) + pageSize - 1) / pageSize)
        ph.pFilesz = .ok seg ↔
      (ph.pVaddr < userspacetop ∧ word32 (ph.pVaddr + ph.pMemsz) ≤ userspacetop) ∧
        seg = ph.segment := by
  have hbase : ph.pVaddr < userspacetop → pageFrame ph.pVaddr < userspacetop :=
    lt_of_le_of_lt (pageFrame_le _)
  simp only [segmentDefine, bind_eq_ok, kassert_eq_ok, exists_and_left, exists_const,
    Except.ok.injEq, true_and]
  constructor
  · rintro ⟨-, h1, h2, h3⟩
    exact ⟨⟨h1, h2⟩, h3.symm⟩
  · rintro ⟨⟨h1, h2⟩, h3⟩
    exact ⟨hbase h1, h1, h2, h3.symm⟩

/-- Creating and defining the segment of an accepted region, wherever it is stored. -/
theorem createDefine_eq_ok (ph : ElfPhdr) (store : Segment → AddrSpace) (r : AddrSpace × σ) :
    (do
      kassert (ph.pMemsz ≠ 0) "memsize != 0"
      let (seg, heap) ← segmentCreate kmalloc heap
      let seg ← segmentDefine seg ph.pOffset (pageFrame ph.pVaddr) ph.pVaddr
        (word32 (ph.pVaddr + ph.pMemsz))
        (word32 (word32 (ph.pMemsz + pageOffset ph.pVaddr) + pageSize - 1) / pageSize) ph.pFilesz
      .ok (store seg, heap)) = .ok r ↔
      ph.Accepted ∧ kmalloc heap sizeofSegment = .block r.2 ∧ r.1 = store ph.segment := by
  obtain ⟨as', heap'⟩ := r
  simp only [bind_eq_ok, kassert_eq_ok, Prod.exists, segmentCreate_eq_ok, exists_const,
    ElfPhdr.Accepted]
  constructor
  · rintro ⟨h0, seg, heap'', ⟨hk, rfl⟩, seg', hd, he⟩
    obtain ⟨hacc, rfl⟩ := segmentDefine_region.mp hd
    cases he
    exact ⟨⟨h0, hacc⟩, hk, rfl⟩
  · rintro ⟨⟨h0, hacc⟩, hk, rfl⟩
    exact ⟨h0, _, _, ⟨hk, rfl⟩, _, segmentDefine_region.mpr ⟨hacc, rfl⟩, rfl⟩

/-- The first region becomes the text segment. -/
theorem asDefineRegion_text (ht : as.asText = none) (ph : ElfPhdr) (r : AddrSpace × σ) :
    asDefineRegion kmalloc heap as ph.pVaddr ph.pMemsz ph.pOffset ph.pFilesz = .ok r ↔
      ph.Accepted ∧ kmalloc heap sizeofSegment = .block r.2 ∧
        r.1 = { as with asText := some ph.segment } := by
  rw [← createDefine_eq_ok ph fun seg => { as with asText := some seg }]
  simp only [asDefineRegion, ht]

/-- The second region becomes the data segment. -/
theorem asDefineRegion_data {t : Segment} (ht : as.asText = some t) (hd : as.asData = none)
    (ph : ElfPhdr) (r : AddrSpace × σ) :
    asDefineRegion kmalloc heap as ph.pVaddr ph.pMemsz ph.pOffset ph.pFilesz = .ok r ↔
      ph.Accepted ∧ kmalloc heap sizeofSegment = .block r.2 ∧
        r.1 = { as with asData := some ph.segment } := by
  rw [← createDefine_eq_ok ph fun seg => { as with asData := some seg }]
  simp only [asDefineRegion, ht, hd]

/-- A third region is refused with a panic. -/
theorem asDefineRegion_full {t d : Segment} (ht : as.asText = some t) (hd : as.asData = some d)
    (ph : ElfPhdr) (r : AddrSpace × σ) :
    asDefineRegion kmalloc heap as ph.pVaddr ph.pMemsz ph.pOffset ph.pFilesz ≠ .ok r := by
  simp [asDefineRegion, ht, hd, bind_eq_ok]

@[simp] theorem kmallocs_nil : kmallocs kmalloc heap [] = some heap :=
  rfl

theorem kmallocs_cons_eq_some {size : ℕ} {sizes : List ℕ} {heap' : σ} :
    kmallocs kmalloc heap (size :: sizes) = some heap' ↔
      ∃ h, kmalloc heap size = .block h ∧ kmallocs kmalloc h sizes = some heap' := by
  rw [kmallocs]
  cases kmalloc heap size with
  | stop why => simp
  | null h => simp
  | block h => simp

/-- One `segment_create` for each region. -/
def regionSizes (phs : List ElfPhdr) : List ℕ :=
  phs.map fun _ => sizeofSegment

/-- The address space after the regions of `phs`. -/
def regionSpace (phs : List ElfPhdr) : AddrSpace :=
  ⟨phs[0]?.map ElfPhdr.segment, phs[1]?.map ElfPhdr.segment, none, none⟩

/-- At most two regions can be defined, and they are as long as each is accepted and
there is memory for the segments. -/
theorem defineRegions_eq_ok (phs : List ElfPhdr) (r : AddrSpace × σ) :
    defineRegions kmalloc phs asCreate heap = .ok r ↔
      (phs.length ≤ 2 ∧ ∀ ph ∈ phs, ph.Accepted) ∧
        kmallocs kmalloc heap (regionSizes phs) = some r.2 ∧ r.1 = regionSpace phs := by
  obtain ⟨as', heap'⟩ := r
  match phs with
  | [] =>
    simp [defineRegions, regionSizes, regionSpace, asCreate, eq_comm, and_comm]
  | [t] =>
    simp only [defineRegions, bind_eq_ok, Prod.exists, asDefineRegion_text, asCreate, regionSizes,
      List.map_cons, List.map_nil, kmallocs_cons_eq_some, kmallocs_nil]
    constructor
    · rintro ⟨as, h, ⟨hacc, hk, rfl⟩, he⟩
      cases he
      exact ⟨⟨by simp, by simpa using hacc⟩, ⟨_, hk, rfl⟩, rfl⟩
    · rintro ⟨⟨-, hacc⟩, ⟨h, hk, he⟩, rfl⟩
      cases he
      exact ⟨_, _, ⟨hacc t (by simp), hk, rfl⟩, rfl⟩
  | [t, d] =>
    simp only [defineRegions, bind_eq_ok, Prod.exists, asDefineRegion_text, asCreate, regionSizes,
      List.map_cons, List.map_nil, kmallocs_cons_eq_some, kmallocs_nil]
    constructor
    · rintro ⟨as, h, ⟨hacc, hk, rfl⟩, as2, h2, hd, he⟩
      rw [asDefineRegion_data rfl rfl] at hd
      obtain ⟨hacc', hk', rfl⟩ := hd
      cases he
      exact ⟨⟨by simp, by simp [hacc, hacc']⟩, ⟨_, hk, _, hk', rfl⟩, rfl⟩
    · rintro ⟨⟨-, hacc⟩, ⟨h, hk, h2, hk', he⟩, rfl⟩
      cases he
      exact ⟨_, _, ⟨hacc t (by simp), hk, rfl⟩, _, _,
        (asDefineRegion_data rfl rfl d _).mpr ⟨hacc d (by simp), hk', rfl⟩, rfl⟩
  | t :: d :: x :: rest =>
    simp only [defineRegions, bind_eq_ok, Prod.exists, asDefineRegion_text, asCreate]
    constructor
    · rintro ⟨as, h, ⟨-, -, rfl⟩, as2, h2, hd, as3, h3, hx, -⟩
      rw [asDefineRegion_data rfl rfl] at hd
      obtain ⟨-, -, rfl⟩ := hd
      exact absurd hx (asDefineRegion_full rfl rfl x _)
    · rintro ⟨⟨hlen, -⟩, -⟩
      simp at hlen

end Region

/-! ## Stack and page table -/

/-- The segment `as_define_stack` defines. -/
def stackSegment : Segment :=
  ⟨userstack - vmStackpages * pageSize, userstack, 0, 0, vmStackpages⟩

section Stack

variable {kmalloc : Kmalloc σ} {heap : σ} (as : AddrSpace)

theorem asDefineStack_eq_ok (r : AddrSpace × ℕ × σ) :
    asDefineStack kmalloc heap as = .ok r ↔
      kmalloc heap sizeofSegment = .block r.2.2 ∧ r.2.1 = userstack ∧
        r.1 = { as with asStack := some stackSegment } := by
  obtain ⟨as', sp, heap'⟩ := r
  have hdef : segmentDefine ⟨0, 0, 0, 0, 0⟩ 0 (userstack - vmStackpages * pageSize)
      (userstack - vmStackpages * pageSize) userstack vmStackpages 0 = .ok stackSegment := rfl
  simp only [asDefineStack, bind_eq_ok, Prod.exists, segmentCreate_eq_ok]
  constructor
  · rintro ⟨seg, h, ⟨hk, rfl⟩, seg', hd, he⟩
    cases hd
    cases he
    exact ⟨hk, rfl, rfl⟩
  · rintro ⟨hk, rfl, rfl⟩
    exact ⟨_, _, ⟨hk, rfl⟩, _, hdef, rfl⟩

/-- The page table takes one allocation, of eight bytes for each page. -/
theorem asDefinePt_eq_ok (L : Layout) (ht : as.asText = some L.text) (hd : as.asData = some L.data)
    (hs : as.asStack = some L.stack) (heap' : σ) :
    asDefinePt kmalloc heap as = .ok ({ as with asPtable := some L.npages }, heap') ↔
      kmalloc heap (word32 (sizeofPtEntry * L.npages)) = .block heap' := by
  simp only [asDefinePt, ht, hd, hs, deref_some, ok_bind, ptCreate, Layout.npages]
  cases kmalloc heap (word32 (sizeofPtEntry *
      (L.data.segNpages + L.text.segNpages + L.stack.segNpages))) with
  | stop why => simp
  | null h => simp
  | block h => simp

/-- A table that `as_define_pt` allocates has an entry for each page. -/
theorem asDefinePt_table {as' : AddrSpace} {heap' : σ} (L : Layout) (ht : as.asText = some L.text)
    (hd : as.asData = some L.data) (hs : as.asStack = some L.stack)
    (h : asDefinePt kmalloc heap as = .ok (as', heap')) (htable : as'.asPtable.isSome) :
    as' = { as with asPtable := some L.npages } := by
  simp only [asDefinePt, ht, hd, hs, deref_some, ok_bind, bind_eq_ok, Prod.exists, ptCreate] at h
  obtain ⟨table, heap'', hc, he⟩ := h
  obtain ⟨rfl, rfl⟩ := Prod.mk.inj (Except.ok.inj he)
  split at hc
  · cases hc
  · obtain ⟨rfl, -⟩ := Prod.mk.inj (Except.ok.inj hc)
    cases htable
  · obtain ⟨rfl, -⟩ := Prod.mk.inj (Except.ok.inj hc)
    rw [ht, hd, hs]
    rfl

end Stack

/-! ## Safe loads -/

/-- The segment runs from `first` over `size` bytes, without wrap-around, up to an
address in user space; its file part fits in it and its page count is exact. -/
def Segment.Spans (seg : Segment) (first size : ℕ) : Prop :=
  seg.segFirstVaddr = first ∧ seg.segFirstVaddr + size = seg.segLastVaddr ∧
    seg.segLastVaddr ≤ userspacetop ∧ seg.segElfSize ≤ size ∧
    seg.segNpages = divroundup (pageOffset first + size) pageSize

/-- The loadable headers `load_elf` reads, and the error it ends with. -/
def elfHeaders (v : Vnode) : List ElfPhdr × Option Errno :=
  match readEhdr v with
  | .error e => ([], some e)
  | .ok eh => scanHeaders v eh eh.ePhnum 0

/-- The set-up ended with an error code, or with the segments of the two loadable headers
and the stack, and a page table with one entry for each page. -/
def LoadSafe (v : Vnode) : Except Halt (Except Errno (ℕ × ℕ) × AddrSpace × σ) → Prop
  | .error _ => False
  | .ok (.error e, _, _) => e.code ≠ 0
  | .ok (.ok _, as, _) => ∃ (t d : ElfPhdr) (L : Layout), (elfHeaders v).1 = [t, d] ∧ as.Has L ∧
      L.text.Spans t.pVaddr t.pMemsz ∧ L.data.Spans d.pVaddr d.pMemsz ∧
      L.stack.Spans (userstack - vmStackpages * pageSize) (vmStackpages * pageSize)

/-- The condition for a safe load. Where the header scan ends in an error, at most two
loadable headers come before it and the kernel accepts each; where it does not, there are
exactly two and each ends in user space. In both cases the kernel heap has room. -/
def LoadsSafely (kmalloc : Kmalloc σ) (v : Vnode) (heap : σ) : Prop :=
  match elfHeaders v with
  | (phs, some _) => (phs.length ≤ 2 ∧ ∀ ph ∈ phs, ph.Accepted) ∧
      (kmallocs kmalloc heap (regionSizes phs)).isSome
  | (phs, none) => ∃ t d, phs = [t, d] ∧ t.Fits ∧ d.Fits ∧
      (kmallocs kmalloc heap [sizeofSegment, sizeofSegment, sizeofSegment,
        sizeofPtEntry * (d.npages + t.npages + vmStackpages)]).isSome

/-- The set-up defines the regions of the headers, then reports the error of the header
scan or goes on to the stack and the page table. -/
theorem loadProgram_eq (kmalloc : Kmalloc σ) (v : Vnode) (heap : σ) :
    loadProgram kmalloc v heap = (do
      let (as, heap) ← defineRegions kmalloc (elfHeaders v).1 asCreate heap
      match (elfHeaders v).2 with
      | some e => .ok (.error e, as, heap)
      | none => do
        let (as, stackptr, heap) ← asDefineStack kmalloc heap as
        let (as, heap) ← asDefinePt kmalloc heap as
        .ok (.ok (v.ehdr.eEntry, stackptr), as, heap)) := by
  have heh : ∀ eh, readEhdr v = .ok eh → eh = v.ehdr := by
    intro eh h
    simp only [readEhdr, bind_eq_ok] at h
    obtain ⟨m, -, h⟩ := h
    split_ifs at h
    exact (Except.ok.inj h).symm
  unfold loadProgram loadElf elfHeaders
  cases hr : readEhdr v with
  | error e => rfl
  | ok eh =>
    obtain rfl := heh eh hr
    dsimp only
    rw [loadElfLoop_eq]
    cases defineRegions kmalloc (scanHeaders v v.ehdr v.ehdr.ePhnum 0).1 asCreate heap with
    | error e => rfl
    | ok r =>
      cases (scanHeaders v v.ehdr v.ehdr.ePhnum 0).2 with
      | some e => rfl
      | none => rfl

/-- The page table of two regions that fit takes less than `2 ^ 32` bytes. -/
theorem word32_table {t d : ElfPhdr} (ht : t.Fits) (hd : d.Fits) :
    word32 (sizeofPtEntry * (d.npages + t.npages + vmStackpages)) =
      sizeofPtEntry * (d.npages + t.npages + vmStackpages) := by
  obtain ⟨-, h1⟩ := ht
  obtain ⟨-, h2⟩ := hd
  simp only [word32, sizeofPtEntry, vmStackpages, ElfPhdr.npages, divroundup, pageOffset, pageSize,
    userspacetop, mipsKseg0] at *
  omega

theorem spans_segment {ph : ElfPhdr} (h : ph.Fits) : ph.segment.Spans ph.pVaddr ph.pMemsz :=
  ⟨rfl, h.segment.1, h.segment.2.1, h.segment.2.2.1, h.segment.2.2.2⟩

/-- With room on the heap, two regions that fit load. -/
theorem loadProgram_of_fits {kmalloc : Kmalloc σ} {v : Vnode} {heap heap' : σ} {t d : ElfPhdr}
    (hv : elfHeaders v = ([t, d], none)) (ht : t.Fits) (hd : d.Fits)
    (hk : kmallocs kmalloc heap [sizeofSegment, sizeofSegment, sizeofSegment,
      sizeofPtEntry * (d.npages + t.npages + vmStackpages)] = some heap') :
    loadProgram kmalloc v heap = .ok (.ok (v.ehdr.eEntry, userstack),
      ⟨some t.segment, some d.segment, some stackSegment,
        some (⟨t.segment, d.segment, stackSegment⟩ : Layout).npages⟩, heap') := by
  simp only [kmallocs_cons_eq_some, kmallocs_nil, Option.some.injEq] at hk
  obtain ⟨h1, hk1, h2, hk2, h3, hk3, h4, hk4, rfl⟩ := hk
  have hn : (⟨t.segment, d.segment, stackSegment⟩ : Layout).npages =
      d.npages + t.npages + vmStackpages := by
    rw [Layout.npages, ht.segment.2.2.2, hd.segment.2.2.2]
    rfl
  have hregions : defineRegions kmalloc [t, d] asCreate heap = .ok (regionSpace [t, d], h2) := by
    rw [defineRegions_eq_ok]
    refine ⟨⟨by simp, by simp [ht.accepted, hd.accepted]⟩, ?_, rfl⟩
    simp only [regionSizes, List.map_cons, List.map_nil, kmallocs_cons_eq_some, kmallocs_nil]
    exact ⟨h1, hk1, h2, hk2, rfl⟩
  have hstack := (asDefineStack_eq_ok (regionSpace [t, d])
    ({ regionSpace [t, d] with asStack := some stackSegment }, userstack, h3)).mpr ⟨hk3, rfl, rfl⟩
  have hpt := (asDefinePt_eq_ok { regionSpace [t, d] with asStack := some stackSegment }
    ⟨t.segment, d.segment, stackSegment⟩ rfl rfl rfl h4).mpr (by rwa [hn, word32_table ht hd])
  rw [loadProgram_eq, hv]
  simp only [hregions, ok_bind, hstack, hpt]
  rfl

/-- A set-up that ends well had two regions that fit, and room on the heap. -/
theorem fits_of_loadSafe {kmalloc : Kmalloc σ} {v : Vnode} {heap : σ}
    (hv : (elfHeaders v).2 = none) (h : LoadSafe v (loadProgram kmalloc v heap)) :
    ∃ t d, (elfHeaders v).1 = [t, d] ∧ t.Fits ∧ d.Fits ∧
      (kmallocs kmalloc heap [sizeofSegment, sizeofSegment, sizeofSegment,
        sizeofPtEntry * (d.npages + t.npages + vmStackpages)]).isSome := by
  cases hr : loadProgram kmalloc v heap with
  | error e =>
    rw [hr] at h
    exact h.elim
  | ok r =>
    rw [hr] at h
    rw [loadProgram_eq, hv] at hr
    simp only [bind_eq_ok, Prod.exists, asDefineStack_eq_ok] at hr
    obtain ⟨as1, h2, hregions, as2, sp, h3, ⟨hk3, -, rfl⟩, as3, h4, hpt, hr⟩ := hr
    cases hr
    obtain ⟨t, d, L, hphs, hL, htext, hdata, -⟩ := h
    rw [hphs, defineRegions_eq_ok] at hregions
    obtain ⟨⟨-, hacc⟩, hk, rfl⟩ := hregions
    simp only [asDefinePt, regionSpace, List.getElem?_cons_zero, List.getElem?_cons_succ,
      Option.map_some, deref_some, ok_bind, bind_eq_ok, Prod.exists] at hpt
    obtain ⟨ptable, h5, hcreate, he⟩ := hpt
    obtain ⟨rfl, rfl⟩ := Prod.mk.inj (Except.ok.inj he)
    -- The address space is that of `L`, so `L` has the segments of the two headers.
    obtain ⟨hLt, hLd, hLs, rfl⟩ : some t.segment = some L.text ∧ some d.segment = some L.data ∧
        some stackSegment = some L.stack ∧ ptable = some L.npages := by
      simpa [AddrSpace.Has] using hL
    have ht : t.Fits := by
      refine ElfPhdr.fits_of_segment (hacc t (by simp)) ?_
      rw [Option.some.inj hLt]
      exact htext.2.1
    have hd : d.Fits := by
      refine ElfPhdr.fits_of_segment (hacc d (by simp)) ?_
      rw [Option.some.inj hLd]
      exact hdata.2.1
    have hn : d.segment.segNpages + t.segment.segNpages + stackSegment.segNpages =
        d.npages + t.npages + vmStackpages := by
      rw [ht.segment.2.2.2, hd.segment.2.2.2]
      rfl
    have hk4 : kmalloc h3 (sizeofPtEntry * (d.npages + t.npages + vmStackpages)) = .block h5 := by
      rw [hn, ptCreate, word32_table ht hd] at hcreate
      cases hk4 : kmalloc h3 (sizeofPtEntry * (d.npages + t.npages + vmStackpages)) with
      | stop why => simp [hk4] at hcreate
      | null h => simp [hk4] at hcreate
      | block h =>
        rw [hk4] at hcreate
        simp only [Except.ok.injEq, Prod.mk.injEq] at hcreate
        rw [hcreate.2]
    refine ⟨t, d, hphs, ht, hd, Option.isSome_iff_exists.mpr ⟨h5, ?_⟩⟩
    simp only [regionSizes, List.map_cons, List.map_nil, kmallocs_cons_eq_some,
      kmallocs_nil] at hk ⊢
    obtain ⟨h1, hk1, h2', hk2, he⟩ := hk
    cases he
    exact ⟨h1, hk1, _, hk2, h3, hk3, h5, hk4, rfl⟩

/-- The files that load safely. -/
theorem loadProgram_safe_iff (kmalloc : Kmalloc σ) (v : Vnode) (heap : σ) :
    LoadSafe v (loadProgram kmalloc v heap) ↔ LoadsSafely kmalloc v heap := by
  unfold LoadsSafely
  obtain ⟨phs, err, hv⟩ : ∃ phs err, elfHeaders v = (phs, err) := ⟨_, _, rfl⟩
  rw [hv]
  cases err with
  | some e =>
    rw [loadProgram_eq, hv]
    cases hr : defineRegions kmalloc phs asCreate heap with
    | error why =>
      refine ⟨fun h => h.elim, ?_⟩
      rintro ⟨hacc, hk⟩
      obtain ⟨heap', hk⟩ := Option.isSome_iff_exists.mp hk
      rw [(defineRegions_eq_ok phs (regionSpace phs, heap')).mpr ⟨hacc, hk, rfl⟩] at hr
      cases hr
    | ok r =>
      obtain ⟨hacc, hk, -⟩ := (defineRegions_eq_ok phs r).mp hr
      exact ⟨fun _ => ⟨hacc, by rw [hk]; rfl⟩, fun _ => e.ne_zero⟩
  | none =>
    constructor
    · intro h
      obtain ⟨t, d, hphs, hrest⟩ := fits_of_loadSafe (by rw [hv]) h
      rw [hv] at hphs
      exact ⟨t, d, hphs, hrest⟩
    · rintro ⟨t, d, rfl, ht, hd, hk⟩
      obtain ⟨heap', hk⟩ := Option.isSome_iff_exists.mp hk
      rw [loadProgram_of_fits hv ht hd hk]
      exact ⟨t, d, ⟨t.segment, d.segment, stackSegment⟩, by rw [hv], rfl, spans_segment ht,
        spans_segment hd, show stackSegment.Spans _ _ by unfold Segment.Spans; decide⟩

/-- An executable with one loadable header leaves the data segment undefined, and
`as_define_pt` reads through it. -/
theorem loadProgram_one_region :
    let v := elfFile 0x400000 [⟨1, 0, 0x400000, 4, 4⟩] []
    let kmalloc : Kmalloc Unit := fun _ _ => .block ()
    loadProgram kmalloc v () = .error .nullDeref ∧ ¬LoadSafe v (loadProgram kmalloc v ()) := by
  intro v kmalloc
  have hv : elfHeaders v = ([⟨1, 0, 0x400000, 4, 4⟩], none) := by decide +kernel
  have h : loadProgram kmalloc v () = .error .nullDeref := by
    rw [loadProgram_eq, hv]
    rfl
  refine ⟨h, ?_⟩
  rw [h]
  exact id

end OS161
