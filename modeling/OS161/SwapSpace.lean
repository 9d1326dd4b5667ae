import Mathlib.Data.Finset.Card
import OS161.FrameScan
import OS161.PageIndex

/-!
# Swap space for a page that comes back

A fault on a page in swap first asks `alloc_upage` for a frame, and frees the slot of the page
only when it has been read. If no frame is free, and the next victim is not read-only, the
victim needs a slot of its own while the page still has its slot. `Kernel.HasRoom` is the
condition under which a frame can be had. There the fault returns, unless a device fails, and
leaves at most as many pages in swap as there were; in every other state it stops with "Out of
swap space" or with "Cannot find swappable victim" (`swap_in_fits_iff`).

A process that touches more pages than there are frames and slots gets to a state without
room (`exists_full`).
-/

namespace OS161

open Function

/-- The number of pages in the swap file. -/
def Kernel.swapUsed (k : Kernel) : ℕ :=
  ((Finset.range swapfileNpages).filter fun i => bitmapIsset k.swap.swapmap i = true).card

/-! ## The fault -/

section Fault

variable {k k' : Kernel} {L : Layout} {fp : FaultPage} {va : ℕ}

/-- The page of a fault has one entry. -/
theorem FaultAt.ptRow_eq {L' : Layout} {fp' : FaultPage} (h : FaultAt k L fp va)
    (h' : FaultAt k L' fp' va) : fp.ptRow = fp'.ptRow := by
  have hp := Option.some.inj (h.curproc.symm.trans h'.curproc)
  have hpr : fp.proc = fp'.proc := Option.some.inj (h.proc.symm.trans (hp ▸ h'.proc))
  obtain rfl := h.built.1.unique (hpr ▸ h'.built.1)
  have hty := Option.some.inj (h.segType.symm.trans h'.segType)
  rw [h.ptRow, h'.ptRow, hp, hty]

theorem mem_slots {i : ℕ} : i ∈ (Finset.range swapfileNpages).filter
    (fun i => bitmapIsset k.swap.swapmap i = true) ↔
      i < swapfileNpages ∧ k.swap.swapmap.Marked i := by
  rw [Finset.mem_filter, Finset.mem_range]
  rfl

/-- A request for a frame puts at most one page into swap. -/
theorem Granted.swapUsed_le {live : PtPtr → Prop} {n b : ℕ} {e : Option PtPtr}
    (hgr : Granted live k n e b k') : k'.swapUsed ≤ k.swapUsed + 1 := by
  cases hgr with
  | free => exact Nat.le_succ _
  | dropped => exact Nat.le_succ _
  | @swapped s e' bm _ _ _ _ hbm =>
    refine le_trans (Finset.card_le_card fun i hi => ?_) (Finset.card_insert_le s _)
    obtain ⟨hlt, hm⟩ := mem_slots.mp hi
    rw [Finset.mem_insert, mem_slots]
    rcases (hbm.2.2.2.2.2 i).mp hm with hm | rfl
    · exact Or.inr ⟨hlt, hm⟩
    · exact Or.inl rfl

/-- A page that comes back leaves its slot. -/
theorem Resolved.swapUsed_le (hr : Resolved L fp va k k') (hk : k.Owned (.quiet k.Live))
    (h : FaultAt k L fp va) (hst : (k.pt fp.ptRow).ptStatus = .inSwap) :
    k'.swapUsed ≤ k.swapUsed := by
  have hslot : (k.pt fp.ptRow).InSlot (k.pt fp.ptRow).ptSwapIndex := ⟨hst, rfl⟩
  cases hr with
  | reload stats hf => exact absurd hf (hslot.not_inFrame _)
  | loaded stats hn => rw [hn] at hst; cases hst
  | @fetched f s k₁ bm stats hs hgr _ _ hm =>
    have hpt : k₁.pt fp.ptRow = k.pt fp.ptRow := hgr.pt_eq hs.not_inFrame
    have hk₁ := hgr.owned hk Nat.one_pos fun _ => rfl
    have hmem := mem_slots.mpr (hk₁.slots.marked_of_inSlot h.live (by rw [hpt]; exact hs))
    have herase : ((Finset.range swapfileNpages).filter fun i => bitmapIsset bm i = true) =
        ((Finset.range swapfileNpages).filter
          fun i => bitmapIsset k₁.swap.swapmap i = true).erase s := by
      ext i
      rw [Finset.mem_erase, mem_slots, Finset.mem_filter, Finset.mem_range]
      exact ⟨fun hi => ⟨((hm i).mp hi.2).2, hi.1, ((hm i).mp hi.2).1⟩,
        fun hi => ⟨hi.2.1, (hm i).mpr ⟨hi.2.2, hi.1⟩⟩⟩
    have hcard := Finset.card_erase_of_mem hmem
    have hle := hgr.swapUsed_le
    rw [← herase] at hcard
    change ((Finset.range swapfileNpages).filter fun i => bitmapIsset bm i = true).card ≤ _
    unfold Kernel.swapUsed at hle ⊢
    omega

end Fault

section Room

variable {k : Kernel} {ty : FaultType} {va : ℕ} {fp : FaultPage}

/-- The page of a fault, as `vm_fault` looks it up. -/
theorem faultAt_of_lookup (hk : k.Inv) (hl : faultLookup k ty va = .ok (.inr fp)) :
    ∃ L, FaultAt (vmstatsHit k .tlbFault) L fp va := by
  obtain ⟨r, hr, hpost⟩ := faultLookup_spec (hk.hit .tlbFault).inv.procs ty va
  obtain rfl := Except.ok.inj (hr.symm.trans hl)
  exact hpost.2

/-- With room for a page, a fault on it returns, unless a device fails. -/
theorem vmFault_room (hk : k.Inv) (hroom : k.HasRoom)
    (hl : faultLookup k ty va = .ok (.inr fp)) :
    Meets (DeviceFailure k.swap.ioError fp.proc) (fun r => r.1 = .ret none)
      (vmFault k ty va) := by
  have hinv := (hk.hit .tlbFault).inv
  obtain ⟨L, hat⟩ := faultAt_of_lookup hk hl
  have hl' : faultLookup (vmstatsHit k .tlbFault) ty va = .ok (.inr fp) := hl
  have hroom' : (vmstatsHit k .tlbFault).HasRoom := hroom
  rcases coremapGetBegin_cases hinv.owned (some fp.ptRow) fp.proc with
    ⟨-, hbegin⟩ | ⟨hno, -⟩
  · rw [vmFault, hl', ok_bind]
    refine (faultResolve_meets hinv.owned hat hbegin fun _ => id).bind fun k₁ _ => ?_
    obtain ⟨stats, hins⟩ := faultInsert_eq k₁ fp va
    rw [hins, ok_bind]
    rfl
  · exact absurd hroom' hno

/-- Without room, a fault on a page in swap stops as the request for a frame does. -/
theorem vmFault_full (hk : k.Inv) (hroom : ¬k.HasRoom)
    (hl : faultLookup k ty va = .ok (.inr fp)) (hst : (k.pt fp.ptRow).ptStatus = .inSwap) :
    (∀ i < swapfileNpages, k.swap.swapmap.Marked i) ∧ vmFault k ty va = .error outOfSwap ∨
      (∀ f, ¬k.coremap.Swappable f) ∧
        vmFault k ty va = .error (.panic "Cannot find swappable victim") := by
  have hinv := (hk.hit .tlbFault).inv
  have hstop : ∀ err, coremapGetBegin (vmstatsHit k .tlbFault) 1 (some fp.ptRow) = .error err →
      vmFault k ty va = .error err := by
    intro err herr
    have hl' : faultLookup (vmstatsHit k .tlbFault) ty va = .ok (.inr fp) := hl
    have hst' : ((vmstatsHit k .tlbFault).pt fp.ptRow).ptStatus = .inSwap := hst
    rw [vmFault, hl', ok_bind]
    dsimp only
    rw [faultResolve, hst']
    rw [allocUpage, getppages_of_begin_error herr]
    rfl
  have hroom' : ¬(vmstatsHit k .tlbFault).HasRoom := hroom
  rcases coremapGetBegin_cases hinv.owned (some fp.ptRow) fp.proc with
    ⟨hyes, -⟩ | ⟨-, ⟨hall, hout⟩ | ⟨hnone, hout⟩⟩
  · exact absurd hyes hroom'
  · exact Or.inl ⟨hall, hstop _ hout⟩
  · exact Or.inr ⟨hnone, hstop _ hout⟩

end Room

/-- In every state the sequential system reaches, a fault on a page in swap returns, device
failures apart, and leaves at most as many pages in swap, exactly if a frame is free, or the
next victim is read-only or has a slot to go to. -/
theorem swap_in_fits_iff {ramsize firstfree : ℕ} {s₀ s : Sys} {tr : List Event}
    (hb : Sys.Boot ramsize firstfree s₀) (hr : Run Sys.Step s₀ tr s) {ty : FaultType} {va : ℕ}
    {fp : FaultPage} (hl : faultLookup s.kernel ty va = .ok (.inr fp))
    (hst : (s.kernel.pt fp.ptRow).ptStatus = .inSwap) :
    Meets (DeviceFailure s.kernel.swap.ioError fp.proc)
        (fun r => r.1 = .ret none ∧ r.2.swapUsed ≤ s.kernel.swapUsed) (vmFault s.kernel ty va) ↔
      s.kernel.HasRoom := by
  have hinv := (Sys.run_inv hb hr).kernel
  constructor
  · intro hmeets
    by_contra hroom
    rcases vmFault_full hinv hroom hl hst with ⟨-, hstop⟩ | ⟨-, hstop⟩
    · exact absurd (hmeets.of_error hstop).mem (by simp [outOfSwap])
    · exact absurd (hmeets.of_error hstop).mem (by simp)
  · intro hroom
    refine ((vmFault_room hinv hroom hl).and
      (vmFault_spec hinv.owned hinv.procs ty va)).mono ?_
    rintro ⟨r, k'⟩ ⟨rfl, -, L, fp', k₁, stats, hat, hres, rfl⟩
    obtain ⟨L', hat'⟩ := faultAt_of_lookup hinv hl
    have hrow := hat.ptRow_eq hat'
    exact ⟨rfl, hres.swapUsed_le ⟨hinv.owned.frames, hinv.owned.slots⟩ hat (hrow ▸ hst)⟩

/-- With every frame in use and a slot left, the page comes back. -/
theorem swap_in_fits_iff_small : ∃ tr s fp, Run Sys.Step (.small 4) tr s ∧
    faultLookup s.kernel .read 0x10000001 = .ok (.inr fp) ∧
    (s.kernel.pt fp.ptRow).ptStatus = .inSwap ∧
    (∀ f < s.kernel.coremap.nRamFrames, s.kernel.coremap.used f = true) ∧
    Meets (DeviceFailure s.kernel.swap.ioError fp.proc)
      (fun r => r.1 = .ret none ∧ r.2.swapUsed ≤ s.kernel.swapUsed)
      (vmFault s.kernel .read 0x10000001) := by
  obtain ⟨tr, s, hrun, hlook, hused, hret⟩ := Run.exists_of_execute Sys.next Sys.step_of_next
    (.small 4) [.build 1 Sys.smallFile, .store 0x10000001 7, .store 0x7ffffff0 8,
      .store 0x7fffe000 9]
    (fun _ s => (((faultLookup s.kernel .read 0x10000001).toOption.bind Sum.getRight?).map fun fp =>
        (s.kernel.pt fp.ptRow).ptStatus) = some .inSwap ∧
      (∀ f < s.kernel.coremap.nRamFrames, s.kernel.coremap.used f = true) ∧
      (vmFault s.kernel .read 0x10000001).toOption.isSome) (by decide +kernel)
  obtain ⟨fp, hfp, hst⟩ := Option.map_eq_some_iff.mp hlook
  obtain ⟨x, hx, hright⟩ := Option.bind_eq_some_iff.mp hfp
  obtain rfl := Sum.getRight?_eq_some_iff.mp hright
  have hboot : Sys.Boot _ _ (Sys.small 4) := Sys.small_boot (by decide) (by decide)
  have hl := eq_ok_of_toOption hx
  have hroom : s.kernel.HasRoom := by
    by_contra hno
    rcases vmFault_full (Sys.run_inv hboot hrun).kernel hno hl hst with ⟨-, hstop⟩ | ⟨-, hstop⟩
    · rw [hstop] at hret
      cases hret
    · rw [hstop] at hret
      cases hret
  exact ⟨tr, s, fp, hrun, hl, hst, hused,
    (swap_in_fits_iff hboot hrun hl hst).mpr hroom⟩

/-! ## Filling the swap file -/

/-- A program with a page of text and 3000 pages of data, more than there are frames and slots. -/
def bigFile : Vnode :=
  elfFile 0x400000 [⟨1, 116, 0x400000, 4, 4⟩, ⟨1, 120, 0x10000000, 4, 3000 * pageSize⟩]
    [0x10, 0x11, 0x12, 0x13, 0x20, 0x21, 0x22, 0x23]

/-- Its segments. -/
def bigLayout : Layout :=
  fileLayout ⟨1, 116, 0x400000, 4, 4⟩ ⟨1, 120, 0x10000000, 4, 3000 * pageSize⟩

/-- An address on data page `j`. -/
def bigPage (j : ℕ) : ℕ :=
  0x10000000 + j * pageSize

theorem bigLayout_text : bigLayout.text = ⟨0x400000, 0x400004, 4, 116, 1⟩ := by
  decide +kernel

theorem bigLayout_data : bigLayout.data = ⟨0x10000000, 0x10bb8000, 4, 120, 3000⟩ := by
  decide +kernel

theorem bigLayout_stack : bigLayout.stack = ⟨0x7ffee000, 0x80000000, 0, 0, 18⟩ := by
  decide +kernel

theorem elfHeaders_bigFile : elfHeaders bigFile =
    ([⟨1, 116, 0x400000, 4, 4⟩, ⟨1, 120, 0x10000000, 4, 3000 * pageSize⟩], none) := by
  decide +kernel

theorem bigLayout_pagesDisjoint : bigLayout.PagesDisjoint := by
  intro ty ty' a b ha hb hab
  simp only [Segment.Contains] at ha hb
  cases ty <;> cases ty' <;>
    simp only [Layout.seg, bigLayout_text, bigLayout_data, bigLayout_stack] at ha hb <;>
    first
      | rfl
      | (simp only [pageFrame] at hab; omega)

theorem contains_bigPage {j : ℕ} (hj : j < 3000) : (bigLayout.seg .data).Contains (bigPage j) := by
  simp only [Segment.Contains, Layout.seg, bigLayout_data, bigPage, pageSize]
  omega

/-- The page is in memory, not read-only, or in swap. -/
def PtEntry.Loaded (x : PtEntry) : Prop :=
  x.ptStatus = .inMemory ∨ x.ptStatus = .inSwap

section Filling

variable {k k' : Kernel} {L : Layout} {fp : FaultPage} {va n : ℕ} {e : PtPtr}

/-- A page that is not read-only stays loaded when frames are granted. -/
theorem Granted.keepsLoaded {live : PtPtr → Prop} {b : ℕ} {e' : Option PtPtr}
    (hgr : Granted live k n e' b k') (h : (k.pt e).Loaded) : (k'.pt e).Loaded := by
  cases hgr with
  | free => exact h
  | @dropped e₁ _ _ _ hro =>
    have hne : e ≠ e₁ := by
      rintro rfl
      rcases h with h | h <;> rw [hro] at h <;> cases h
    rw [Kernel.take, Kernel.discard]
    simpa [hne] using h
  | @swapped s e₁ =>
    rw [Kernel.take, Kernel.finishOut, Kernel.startOut]
    by_cases he : e = e₁
    · subst he
      simp [PtEntry.Loaded]
    · simpa [he] using h

/-- A resolved fault leaves the entries, or sets one after a frame was granted. -/
theorem Resolved.pt_cases (hr : Resolved L fp va k k') :
    k'.pt = k.pt ∧ (∃ f, (k.pt fp.ptRow).InFrame f) ∨
    ∃ f k₁, Granted k.Live k 1 (some fp.ptRow) f k₁ ∧
      k'.pt = update k₁.pt fp.ptRow ⟨f, 0, fp.segType.resident⟩ := by
  cases hr with
  | reload stats hf => exact Or.inl ⟨rfl, _, hf⟩
  | loaded stats _ hgr | fetched stats _ hgr => exact Or.inr ⟨_, _, hgr, rfl⟩

/-- A fault on a data page loads it, and leaves the other pages of data loaded. -/
theorem Resolved.keepsLoaded (hr : Resolved L fp va k k') (hty : fp.segType = .data)
    (hmem : (k.pt fp.ptRow).ptStatus ≠ .inMemoryRdonly) (h : (k.pt e).Loaded ∨ e = fp.ptRow) :
    (k'.pt e).Loaded := by
  rcases hr.pt_cases with ⟨hpt, f, hf⟩ | ⟨f, k₁, hgr, hpt⟩
  · rw [hpt]
    rcases h with h | rfl
    · exact h
    · exact Or.inl (hf.1.resolve_right hmem)
  · rw [hpt]
    by_cases he : e = fp.ptRow
    · subst he
      rw [update_self, hty]
      exact Or.inl rfl
    · rw [update_of_ne he]
      exact hgr.keepsLoaded (h.resolve_right he)

/-- A page of data does not become read-only. -/
theorem Resolved.keepsWritable (hr : Resolved L fp va k k') (hty : fp.segType = .data)
    (h : (k.pt e).ptStatus ≠ .inMemoryRdonly) : (k'.pt e).ptStatus ≠ .inMemoryRdonly := by
  rcases hr.pt_cases with ⟨hpt, -⟩ | ⟨f, k₁, hgr, hpt⟩
  · rwa [hpt]
  · rw [hpt]
    by_cases he : e = fp.ptRow
    · subst he
      rw [update_self, hty]
      simp [SegType.resident]
    · rw [update_of_ne he]
      exact fun hro => h (hgr.rdonly hro)

theorem Resolved.nRamFrames (hr : Resolved L fp va k k') :
    k'.coremap.nRamFrames = k.coremap.nRamFrames := by
  cases hr with
  | reload => rfl
  | loaded stats _ hgr => exact hgr.nRamFrames
  | fetched stats _ hgr => exact hgr.nRamFrames

/-- The entry of data page `j` of process `1`. -/
def bigEntry (j : ℕ) : PtPtr :=
  ⟨1, bigLayout.indexIn .data (bigPage j)⟩

/-- The first `n` pages of data of process `1`, the only one, are loaded. -/
structure Filling (frames : ℕ) (pr : Proc) (n : ℕ) (k : Kernel) : Prop where
  paging : Serves (fun _ => false) 1 pr k
  readable : pr.Readable
  built : pr.Built bigLayout
  alone : ∀ q, q ≠ 1 → k.procs q = none
  nRamFrames : k.coremap.nRamFrames = frames
  writable : ∀ j < 3000, (k.pt (bigEntry j)).ptStatus ≠ .inMemoryRdonly
  loaded : ∀ j < n, (k.pt (bigEntry j)).Loaded

variable {frames : ℕ} {pr : Proc}

theorem segType_bigPage {j : ℕ} (hj : j < 3000) : bigLayout.segType (bigPage j) = some .data :=
  Layout.segType_of_contains bigLayout_pagesDisjoint (contains_bigPage hj)

/-- With room, the next page can be loaded. -/
theorem Filling.step (h : Filling frames pr n k) (hn : n < 3000) (hroom : k.HasRoom) :
    ∃ k', vmFault k .read (bigPage n) = .ok (.ret none, k') ∧ Filling frames pr (n + 1) k' := by
  have hva : asGetSegmentType pr.pAddrspace (bigPage n) = .ok (some .data) := by
    rw [asGetSegmentType_of_has h.built.1, segType_bigPage hn]
  have hpaging : Meets _ _ (vmFault k .read (bigPage n)) := vmFault_paging h.paging hva false
  obtain ⟨-, fp', hl, hproc, -⟩ :=
    faultLookup_valid h.paging.inv.procs h.paging.curproc h.paging.proc hva false
  have hroom : Meets _ _ (vmFault k .read (bigPage n)) := vmFault_room h.paging.inv hroom hl
  have hspec := vmFault_spec h.paging.inv.owned h.paging.inv.procs .read (bigPage n)
  cases hf : vmFault k .read (bigPage n) with
  | error err =>
    have hdev := hroom.of_error hf
    rw [h.paging.swap, hproc] at hdev
    cases hdev with
    | out hio => cases hio
    | fetch hio => cases hio
    | load hr | short hr => exact absurd h.readable hr
  | ok r =>
    obtain ⟨res, k'⟩ := r
    obtain ⟨rfl, hpag, -⟩ := hpaging.of_ok hf
    obtain ⟨-, L, fp, k₁, stats, hat, hres, rfl⟩ := hspec.of_ok hf
    refine ⟨_, rfl, ?_⟩
    -- The fault is on the entry of page `n`.
    have hp : 1 = fp.p := Option.some.inj (h.paging.curproc.symm.trans hat.curproc)
    have hpr : pr = fp.proc := Option.some.inj (h.paging.proc.symm.trans (hp ▸ hat.proc))
    obtain rfl := hat.built.1.unique (hpr ▸ h.built.1)
    have hty : fp.segType = .data :=
      Option.some.inj (hat.segType.symm.trans (segType_bigPage hn))
    have hrow : fp.ptRow = bigEntry n := by rw [hat.ptRow, ← hp, hty, bigEntry]
    refine ⟨hpag, h.readable, h.built, fun q hq => ?_, hres.nRamFrames.trans h.nRamFrames,
      fun j hj => hres.keepsWritable hty (h.writable j hj), fun j hj => ?_⟩
    · exact (congrFun hres.procs.1 q).trans (h.alone q hq)
    · refine hres.keepsLoaded hty (hrow ▸ h.writable n hn) ?_
      rcases Nat.lt_succ_iff_lt_or_eq.mp hj with hj | rfl
      · exact Or.inl (h.loaded j hj)
      · exact Or.inr hrow.symm

theorem Filling.live (h : Filling frames pr n k) {j : ℕ} (hj : j < 3000) :
    k.Live (bigEntry j) :=
  (Kernel.live_iff h.paging.proc h.built.1).mpr
    (Layout.indexIn_lt_npages h.built.wf (contains_bigPage hj))

theorem Filling.bigEntry_inj (h : Filling frames pr n k) {i j : ℕ} (hi : i < 3000) (hj : j < 3000)
    (heq : bigEntry i = bigEntry j) : i = j := by
  have hindex := congrArg PtPtr.index heq
  have hpage := ((Layout.indexIn_inj h.built.wf (contains_bigPage hi) (contains_bigPage hj)).mp
    hindex).2
  simp only [pageFrame, bigPage, pageSize] at hpage
  omega

/-- The place of a loaded page : its frame, or its slot, counted after the frames. -/
def PtEntry.place (frames : ℕ) (x : PtEntry) : ℕ :=
  if x.ptStatus = .inMemory then x.ptFrameIndex else frames + x.ptSwapIndex

theorem Filling.place (h : Filling frames pr n k) (hn : n ≤ 3000) {j : ℕ} (hj : j < n) :
    (∃ f < frames, (k.pt (bigEntry j)).InFrame f ∧ (k.pt (bigEntry j)).place frames = f) ∨
      ∃ s < swapfileNpages, (k.pt (bigEntry j)).InSlot s ∧
        (k.pt (bigEntry j)).place frames = frames + s := by
  have hk := h.paging.inv.owned
  have hlive := h.live (j := j) (by omega)
  rcases h.loaded j hj with hst | hst
  · have hf : (k.pt (bigEntry j)).InFrame (k.pt (bigEntry j)).ptFrameIndex := ⟨Or.inl hst, rfl⟩
    refine Or.inl ⟨_, ?_, hf, if_pos hst⟩
    rw [← h.nRamFrames]
    exact (hk.frames.resident _ _ hlive hf).1
  · have hs : (k.pt (bigEntry j)).InSlot (k.pt (bigEntry j)).ptSwapIndex := ⟨hst, rfl⟩
    exact Or.inr ⟨_, (hk.slots.marked_of_inSlot hlive hs).1, hs, if_neg (by simp [hst])⟩

/-- There are no more loaded pages than frames and slots. -/
theorem Filling.le (h : Filling frames pr n k) (hn : n ≤ 3000) : n ≤ frames + swapfileNpages := by
  have hk := h.paging.inv.owned
  have hcard : (Finset.range n).card ≤ (Finset.range (frames + swapfileNpages)).card := by
    refine Finset.card_le_card_of_injOn (fun j => (k.pt (bigEntry j)).place frames) ?_ ?_
    · intro j hj
      have hj' : j < n := Finset.mem_range.mp hj
      have hplace : (k.pt (bigEntry j)).place frames < frames + swapfileNpages := by
        rcases h.place hn hj' with ⟨f, hf, -, hp⟩ | ⟨s, hs, -, hp⟩ <;> omega
      exact Finset.mem_coe.mpr (Finset.mem_range.mpr hplace)
    · intro i hi j hj hij
      have hi' : i < n := Finset.mem_range.mp hi
      have hj' : j < n := Finset.mem_range.mp hj
      have hli := h.live (j := i) (by omega)
      have hlj := h.live (j := j) (by omega)
      refine h.bigEntry_inj (by omega) (by omega) ?_
      dsimp only at hij
      -- A frame belongs to one page, and so does a slot.
      rcases h.place hn hi' with ⟨f, hf, hin, hp⟩ | ⟨s, hs, hin, hp⟩ <;>
        rcases h.place hn hj' with ⟨f', hf', hin', hp'⟩ | ⟨s', hs', hin', hp'⟩
      · obtain rfl : f = f' := by omega
        exact hk.frames.resident_inj hli hlj hin hin'
      · omega
      · omega
      · obtain rfl : s = s' := by omega
        have hone := hk.slots.unique (.page (bigEntry i)) (.page (bigEntry j)) s ⟨hli, hin⟩
          ⟨hlj, hin'⟩
        exact Holder.page.inj hone
  simpa using hcard

/-- Without room, every slot is marked. -/
theorem Filling.marked (h : Filling frames pr n k) (hroom : ¬k.HasRoom) :
    ∀ i < swapfileNpages, k.swap.swapmap.Marked i := by
  rcases coremapGetBegin_cases h.paging.inv.owned none pr with
    ⟨hyes, -⟩ | ⟨-, ⟨hall, -⟩ | ⟨hnone, -⟩⟩
  · exact absurd hyes hroom
  · exact hall
  · exact absurd hnone (not_forall_not.mpr (h.paging.two.swappable hroom))

/-- Without room some page is in swap, and a fault on it stops. -/
theorem Filling.stops (h : Filling frames pr n k) (hroom : ¬k.HasRoom) :
    ∃ fp va, faultLookup k .read va = .ok (.inr fp) ∧ (k.pt fp.ptRow).ptStatus = .inSwap ∧
      vmFault k .read va = .error outOfSwap := by
  have hinv := h.paging.inv
  obtain ⟨x, hx⟩ := (hinv.owned.slots.marked 0 (by decide)).mp (h.marked hroom 0 (by decide))
  cases x with
  | frame f => cases hx
  | page e =>
    obtain ⟨hl, hs⟩ := hx
    obtain ⟨p, i⟩ := e
    obtain rfl : p = 1 := by
      by_contra hp
      obtain ⟨pr', m, hpr', -⟩ := hl
      rw [h.alone p hp] at hpr'
      cases hpr'
    have hi := (Kernel.live_iff h.paging.proc h.built.1).mp hl
    obtain ⟨ty, va, hc, rfl⟩ := Layout.exists_indexIn h.built.wf (by
      intro ty
      cases ty <;> simp [Layout.seg, bigLayout_text, bigLayout_data, bigLayout_stack]) hi
    have hseg := Layout.segType_of_contains bigLayout_pagesDisjoint hc
    have hva : asGetSegmentType pr.pAddrspace va = .ok (some ty) := by
      rw [asGetSegmentType_of_has h.built.1, hseg]
    obtain ⟨L, fp, hlook, rfl, hat⟩ :=
      faultLookup_valid hinv.procs h.paging.curproc h.paging.proc hva false
    obtain rfl := hat.built.1.unique h.built.1
    have hp : 1 = fp.p := Option.some.inj (h.paging.curproc.symm.trans hat.curproc)
    have hty : fp.segType = ty := Option.some.inj (hat.segType.symm.trans hseg)
    have hst : (k.pt fp.ptRow).ptStatus = .inSwap := by
      rw [hat.ptRow, ← hp, hty]
      exact hs.1
    refine ⟨fp, va, hlook, hst, ?_⟩
    rcases vmFault_full hinv hroom hlook hst with ⟨-, hstop⟩ | ⟨hnone, -⟩
    · exact hstop
    · exact absurd hnone (not_forall_not.mpr (h.paging.two.swappable hroom))

end Filling

/-- A process that touches its pages one after the other comes to a state without room. -/
theorem exists_full {frames : ℕ} {pr : Proc} {s₀ s : Sys} {tr : List Event}
    (hlt : frames + swapfileNpages < 3000) (hr : Run Sys.Step s₀ tr s)
    (h : Filling frames pr 0 s.kernel) :
    ∃ tr' s' n, Run Sys.Step s₀ tr' s' ∧ Filling frames pr n s'.kernel ∧ ¬s'.kernel.HasRoom := by
  by_contra hno
  have hall : ∀ n ≤ 3000, ∃ tr' s', Run Sys.Step s₀ tr' s' ∧ Filling frames pr n s'.kernel := by
    intro n
    induction n with
    | zero => exact fun _ => ⟨tr, s, hr, h⟩
    | succ n ih =>
      intro hn
      obtain ⟨tr', s', hr', hfill⟩ := ih (by omega)
      have hroom : s'.kernel.HasRoom :=
        by_contra fun hfull => hno ⟨tr', s', n, hr', hfill, hfull⟩
      obtain ⟨k', hf, hfill'⟩ := hfill.step (by omega) hroom
      have hexec : s'.exec (.fault .read (bigPage n)) =
          .ok (.faulted .read (bigPage n) (.ret none), { s' with kernel := k' }) := by
        rw [Sys.exec, hf]
        rfl
      exact ⟨_, { s' with kernel := k' }, hr'.snoc ⟨.fault .read (bigPage n), trivial, hexec⟩,
        hfill'⟩
  obtain ⟨-, s', -, hfill⟩ := hall 3000 le_rfl
  have := hfill.le le_rfl
  omega

/-- Whether an operation set up a process. -/
def Event.isBuilt : Event → Bool
  | .built _ _ => true
  | _ => false

/-- The process is set up, with no page loaded. -/
theorem bigFile_filling : ∃ tr s pr, Run Sys.Step (.small 512) tr s ∧
    Filling 512 pr 0 s.kernel := by
  have h : ((Sys.small 512).exec (.build 1 bigFile)).toOption.map (fun r => r.1.isBuilt) =
      some true := by
    decide +kernel
  obtain ⟨⟨ev, s⟩, hexec, hev⟩ := Option.map_eq_some_iff.mp h
  have hexec := eq_ok_of_toOption hexec
  have hstep : Sys.Step (.small 512) ev s := ⟨.build 1 bigFile, rfl, hexec⟩
  have hrun : Run Sys.Step (.small 512) [ev] s := .snoc .start hstep
  have hinv := (Sys.run_inv (Sys.small_boot (by decide) (by decide)) hrun).kernel
  rcases Sys.build_spec hexec with ⟨as, L, rfl, hL, rfl⟩ | ⟨e, rfl, -⟩
  · have hlayout : L = bigLayout := by
      obtain ⟨-, t, d, hheaders, -, -, -, -, rfl⟩ := hL
      rw [elfHeaders_bigFile, Prod.mk.injEq, List.cons.injEq, List.cons.injEq] at hheaders
      obtain ⟨⟨rfl, rfl, -⟩, -⟩ := hheaders
      rfl
    subst hlayout
    have hfree : (Sys.small 512).kernel.coremap.TwoAvailable :=
      ⟨300, 301, by decide, by decide +kernel, by decide +kernel⟩
    have hproc : ((Sys.small 512).kernel.build 1 bigFile as).procs 1 = some ⟨as, bigFile⟩ := by
      simp [Kernel.build]
    refine ⟨_, _, ⟨as, bigFile⟩, hrun, ⟨hinv, rfl, hproc, rfl, hfree⟩, ⟨fun _ _ => rfl, ?_⟩, hL, ?_,
      rfl, ?_, ?_⟩
    · intro L hhas ty
      obtain rfl := hL.1.unique hhas
      have hlen : bigFile.contents.length = 124 := by decide +kernel
      rw [hlen]
      cases ty <;> simp [Layout.seg, bigLayout_text, bigLayout_data, bigLayout_stack]
    · intro q hq
      simp [Kernel.build, hq, Sys.small, boot]
    · intro j _
      simp [Kernel.build, bigEntry]
    · exact fun j hj => absurd hj (Nat.not_lt_zero j)
  · cases hev

/-- With every frame and every slot taken, a page in swap cannot come back. -/
theorem swap_in_stops_full : ∃ tr s fp va, Run Sys.Step (.small 512) tr s ∧
    faultLookup s.kernel .read va = .ok (.inr fp) ∧
    (s.kernel.pt fp.ptRow).ptStatus = .inSwap ∧
    vmFault s.kernel .read va = .error outOfSwap := by
  obtain ⟨tr, s, pr, hrun, hfill⟩ := bigFile_filling
  obtain ⟨tr', s', n, hrun', hfill', hfull⟩ := exists_full (by decide) hrun hfill
  obtain ⟨fp, va, hl, hst, hstop⟩ := hfill'.stops hfull
  exact ⟨tr', s', fp, va, hrun', hl, hst, hstop⟩

end OS161
