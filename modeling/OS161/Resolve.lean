import OS161.Evict
import OS161.System

/-!
# How a fault is resolved

`vmFault_spec` says everything a fault can do in the sequential system. A fault on a page
in memory only reloads the TLB; a page that was not loaded, or that is in swap, gets frames
from `coremap_getppages` in one of its three ways (`Granted`), is read in, and its entry is
set (`Resolved`); then one TLB slot is written. Apart from panics nothing else happens : no
assertion fails. `asDestroy_spec` is the same for the destruction of an address space.
-/

namespace OS161

open Function

variable {L : Layout} {k : Kernel} {g : Ghost}

/-! ## Processes with a file -/

/-- The segments of a program with the loadable headers `t` and `d`. -/
def fileLayout (t d : ElfPhdr) : Layout :=
  ⟨t.segment, d.segment, stackSegment⟩

theorem ElfPhdr.segment_wf {ph : ElfPhdr} (h : ph.Accepted) (hm : ph.pMemsz < 2 ^ 32) :
    ph.segment.WF :=
  segmentDefine_wf hm (segmentDefine_region.mpr ⟨h.2, rfl⟩)

theorem stackSegment_wf : stackSegment.WF := by
  intro _
  decide

/-- The address space of a process was set up from its file. -/
def Proc.Built (pr : Proc) (L : Layout) : Prop :=
  pr.pAddrspace.Has L ∧ ∃ t d, elfHeaders pr.pVnode = ([t, d], none) ∧ t.Accepted ∧ d.Accepted ∧
    t.pMemsz < 2 ^ 32 ∧ d.pMemsz < 2 ^ 32 ∧ L = fileLayout t d

theorem Proc.Built.wf {pr : Proc} (h : pr.Built L) : L.WF := by
  obtain ⟨-, t, d, -, ht, hd, ht', hd', rfl⟩ := h
  refine ⟨fun ty => ?_⟩
  cases ty with
  | text => exact ElfPhdr.segment_wf ht ht'
  | data => exact ElfPhdr.segment_wf hd hd'
  | stack => exact stackSegment_wf

/-- What `load_elf`, `as_define_stack` and `as_define_pt` leave, if the table was allocated. -/
theorem loadProgram_built_of_table {σ : Type} {kmalloc : Kmalloc σ} {v : Vnode} {heap heap' : σ}
    {r : ℕ × ℕ} {as : AddrSpace} (h : loadProgram kmalloc v heap = .ok (.ok r, as, heap'))
    (htable : as.asPtable.isSome) : ∃ L, Proc.Built ⟨as, v⟩ L := by
  rw [loadProgram_eq] at h
  obtain ⟨phs, err, hv⟩ : ∃ phs err, elfHeaders v = (phs, err) := ⟨_, _, rfl⟩
  rw [hv] at h
  cases err with
  | some e => simp [bind_eq_ok] at h
  | none =>
    simp only [bind_eq_ok, Prod.exists, asDefineStack_eq_ok, defineRegions_eq_ok] at h
    obtain ⟨as1, h1, ⟨⟨hlen, hacc⟩, -, rfl⟩, as2, sp, h2, ⟨-, -, rfl⟩, as3, h3, hpt, hr⟩ := h
    obtain ⟨t, d, rfl⟩ : ∃ t d, phs = [t, d] := by
      match phs with
      | [] => simp [asDefinePt, regionSpace, deref] at hpt
      | [t] => simp [asDefinePt, regionSpace, deref] at hpt
      | [t, d] => exact ⟨t, d, rfl⟩
      | _ :: _ :: _ :: _ => simp at hlen
    have hmem : ∀ ph ∈ [t, d], ph.pMemsz < 2 ^ 32 := by
      intro ph hph
      have hph' : ph ∈ (elfHeaders v).1 := by rwa [hv]
      unfold elfHeaders at hph'
      cases hr : readEhdr v with
      | error e => simp [hr] at hph'
      | ok eh =>
        rw [hr] at hph'
        obtain ⟨o, rfl⟩ := scanHeaders_phdr v eh _ _ ph hph'
        exact v.be32_lt _
    cases hr
    obtain rfl := asDefinePt_table _ (fileLayout t d) rfl rfl rfl hpt htable
    exact ⟨fileLayout t d, rfl, t, d, hv, hacc t (by simp), hacc d (by simp), hmem t (by simp),
      hmem d (by simp), rfl⟩

theorem loadProgram_built {v : Vnode} {r : ℕ × ℕ} {as : AddrSpace}
    (h : loadProgram heapRoom v () = .ok (.ok r, as, ())) : ∃ L, Proc.Built ⟨as, v⟩ L := by
  refine loadProgram_built_of_table h ?_
  rw [loadProgram_eq] at h
  cases hv : (elfHeaders v).2 with
  | some e => simp [hv, bind_eq_ok] at h
  | none =>
    simp only [hv, bind_eq_ok, Prod.exists, asDefinePt, ptCreate, heapRoom, Except.ok.injEq] at h
    obtain ⟨_, _, -, _, _, _, -, as3, _, ⟨_, -, _, -, _, -, _, _, htable, has3⟩, hr⟩ := h
    cases htable
    cases has3
    cases hr
    rfl

namespace Kernel

/-- The entry belongs to the page table of a live address space. -/
def Live (k : Kernel) (e : PtPtr) : Prop :=
  ∃ pr n, k.procs e.asid = some pr ∧ pr.pAddrspace.asPtable = some n ∧ e.index < n

instance (k : Kernel) (e : PtPtr) : Decidable (k.Live e) :=
  decidable_of_iff
    (((k.procs e.asid).bind fun pr => pr.pAddrspace.asPtable).any fun n => e.index < n) (by
      cases hp : k.procs e.asid with
      | none => simp [Live, hp]
      | some pr => cases hn : pr.pAddrspace.asPtable <;> simp [Live, hp, hn])

/-- Every address space was set up from a file. -/
def ProcsOk (k : Kernel) : Prop :=
  ∀ p pr, k.procs p = some pr → ∃ L, pr.Built L

theorem live_iff {k : Kernel} {p i : ℕ} {pr : Proc} {L : Layout} (hp : k.procs p = some pr)
    (hL : pr.pAddrspace.Has L) : k.Live ⟨p, i⟩ ↔ i < L.npages := by
  have hn : pr.pAddrspace.asPtable = some L.npages := by rw [hL]
  constructor
  · rintro ⟨pr', n, hp', hn', hi⟩
    obtain rfl := Option.some.inj (hp.symm.trans hp')
    obtain rfl := Option.some.inj (hn.symm.trans hn')
    exact hi
  · intro hi
    exact ⟨pr, L.npages, hp, hn, hi⟩

end Kernel

/-! ## Looking the page up -/

/-- The page a fault of the current process is about. -/
structure FaultAt (k : Kernel) (L : Layout) (fp : FaultPage) (va : ℕ) : Prop where
  curproc : k.curproc = some fp.p
  proc : k.procs fp.p = some fp.proc
  built : fp.proc.Built L
  segType : L.segType va = some fp.segType
  ptRow : fp.ptRow = ⟨fp.p, L.indexIn fp.segType va⟩

theorem FaultAt.live {fp : FaultPage} {va : ℕ} (h : FaultAt k L fp va) :
    k.Live fp.ptRow := by
  rw [h.ptRow, Kernel.live_iff h.proc h.built.1]
  exact Layout.indexIn_lt_npages h.built.wf (Layout.contains_of_segType h.segType)

/-- The outcome of `faultLookup` : a page, or an early end of `vm_fault`. -/
def LookupPost (k : Kernel) (ty : FaultType) (va : ℕ) : FaultResult ⊕ FaultPage → Prop
  | .inr fp => (ty = .read ∨ ty = .write) ∧ ∃ L, FaultAt k L fp va
  | .inl (.exit status) => status = -1 ∧ (ty = .readonly ∨ (ty = .read ∨ ty = .write) ∧
      ∃ p pr L, k.curproc = some p ∧ k.procs p = some pr ∧ pr.Built L ∧ L.segType va = none)
  | .inl (.ret err) => err.isSome ∧ (ty = .other ∨ (ty = .read ∨ ty = .write) ∧
      k.curproc.bind k.procs = none)

theorem faultLookup_spec (hp : k.ProcsOk) (ty : FaultType) (va : ℕ) :
    ∃ r, faultLookup k ty va = .ok r ∧ LookupPost k ty va r := by
  have key : ty = .read ∨ ty = .write → faultLookup k ty va = faultLookup k .read va := by
    rintro (rfl | rfl) <;> rfl
  have hread : ty = .read ∨ ty = .write →
      ∃ r, faultLookup k ty va = .ok r ∧ LookupPost k ty va r := by
    intro hty
    rw [key hty]
    unfold faultLookup
    cases hc : k.curproc with
    | none => exact ⟨_, rfl, rfl, Or.inr ⟨hty, by rw [hc]; rfl⟩⟩
    | some p =>
      dsimp only
      cases hpr : k.procs p with
      | none => exact ⟨_, rfl, rfl, Or.inr ⟨hty, by rw [hc]; exact hpr⟩⟩
      | some pr =>
        obtain ⟨L, hL⟩ := hp p pr hpr
        have has := hL.1
        have hsome : pr.pAddrspace.asData.isSome ∧ pr.pAddrspace.asStack.isSome ∧
            pr.pAddrspace.asText.isSome ∧ pr.pAddrspace.asPtable.isSome := by
          rw [has]
          exact ⟨rfl, rfl, rfl, rfl⟩
        dsimp only
        rw [kassert_pos hsome.1, ok_bind, kassert_pos hsome.2.1, ok_bind, kassert_pos hsome.2.2.1,
          ok_bind, kassert_pos hsome.2.2.2, ok_bind, asGetSegmentType_of_has has, ok_bind]
        cases hseg : L.segType va with
        | none => exact ⟨_, rfl, rfl, Or.inr ⟨hty, p, pr, L, hc, hpr, hL, hseg⟩⟩
        | some segType =>
          rw [ptGetEntry, ptGetIndex_of_has has hL.wf hseg, ok_bind]
          exact ⟨_, rfl, hty, L, hc, hpr, hL, hseg, rfl⟩
  cases ty with
  | read => exact hread (Or.inl rfl)
  | write => exact hread (Or.inr rfl)
  | readonly | other => exact ⟨_, rfl, rfl, Or.inl rfl⟩

/-- The page of the fault is not in memory, so that it needs a frame. -/
def Kernel.Misses (k : Kernel) (faulttype : FaultType) (va : ℕ) : Prop :=
  ∃ fp, faultLookup k faulttype va = .ok (.inr fp) ∧ ∀ f, ¬(k.pt fp.ptRow).InFrame f

/-! ## Getting a frame -/

namespace Granted

variable {live : PtPtr → Prop} {k k' : Kernel} {n b : ℕ} {e : Option PtPtr} {e₀ : PtPtr}

theorem procs (h : Granted live k n e b k') : k'.procs = k.procs := by
  cases h <;> rfl

theorem curproc (h : Granted live k n e b k') : k'.curproc = k.curproc := by
  cases h <;> rfl

theorem nRamFrames (h : Granted live k n e b k') :
    k'.coremap.nRamFrames = k.coremap.nRamFrames := by
  cases h <;> rfl

theorem used (h : Granted live k n e b k') (f : ℕ) :
    k'.coremap.used f = if b ≤ f ∧ f < b + n then true else k.coremap.used f := by
  cases h with
  | free => simp [Kernel.take]
  | dropped hn => simp [Kernel.take, Kernel.discard, hn]
  | swapped hn => simp [Kernel.take, Kernel.finishOut, Kernel.startOut, hn]

theorem size (h : Granted live k n e b k') (f : ℕ) :
    k'.coremap.size f = if f = b then n % 2 ^ 20 else k.coremap.size f := by
  cases h with
  | free => simp [Kernel.take]
  | dropped hn => simp [Kernel.take, Kernel.discard, hn]
  | swapped hn => simp [Kernel.take, Kernel.finishOut, Kernel.startOut, hn]

theorem owner (h : Granted live k n e b k') (f : ℕ) :
    k'.coremap.owner f = if b ≤ f ∧ f < b + n then e else k.coremap.owner f := by
  cases h with
  | free => simp [Kernel.take]
  | dropped hn => simp [Kernel.take, Kernel.discard, hn]
  | swapped hn => simp [Kernel.take, Kernel.finishOut, Kernel.startOut, hn]

/-- The request changes no entry of a page that is not in memory. -/
theorem pt_eq (h : Granted live k n e b k') (he : ∀ f, ¬(k.pt e₀).InFrame f) :
    k'.pt e₀ = k.pt e₀ := by
  cases h with
  | free => rfl
  | @dropped e' _ _ hf | @swapped s e' bm _ _ hf =>
    have hne : e₀ ≠ e' := by
      rintro rfl
      exact he b hf
    exact update_of_ne hne _ _

theorem lt (h : Granted live k n e b k') (hk : k.Owned (.quiet live)) (hn : 0 < n) :
    b < k.coremap.nRamFrames := by
  cases h with
  | free hrun =>
    have := hrun.1
    omega
  | dropped _ hl hf | swapped _ hl hf => exact (hk.frames.resident _ _ hl hf).1

theorem owner_self (h : Granted live k 1 e b k') : k'.coremap.owner b = e := by
  rw [h.owner, if_pos (by omega)]

/-- The frames of a request were free, or a page was taken out of its frame for it. -/
theorem victim (h : Granted live k n e b k') :
    k.coremap.FreeRun n b ∨ n = 1 ∧ ∃ e', live e' ∧ (k.pt e').InFrame b := by
  cases h with
  | free hrun => exact Or.inl hrun
  | dropped hn hl hf | swapped hn hl hf => exact Or.inr ⟨hn, _, hl, hf⟩

end Granted

theorem getppages_spec {live : PtPtr → Prop} {n : ℕ} (h : k.Owned (.quiet live))
    (hn : 0 < n) (e : Option PtPtr) :
    Meets Halt.Resource (fun r => ∃ b, b ≠ 0 ∧ r.1 = b * pageSize ∧ Granted live k n e b r.2)
      (getppages k n e) := by
  refine (coremapGetppages_spec h hn e).bind ?_
  rintro ⟨addr, k'⟩ ⟨b, rfl, hgr⟩
  dsimp only
  unfold checkPpages
  split_ifs with h0
  · exact trivial
  · refine ⟨b, ?_, rfl, hgr⟩
    rintro rfl
    exact h0 (Nat.zero_mul _)

/-! ## Bringing the page in -/

/-- What is to be read from the file for the page of `va` in frame `f`, if anything. -/
def FaultPage.plan (fp : FaultPage) (L : Layout) (va f : ℕ) : Option LoadPlan :=
  let plan := (L.seg fp.segType).loadPlan va
  if fp.segType ≠ .stack ∧ va < roundup32 (L.seg fp.segType).elfEnd then
    some { plan with target := f * pageSize + plan.target }
  else none

/-- Memory after the read. -/
def LoadPlan.loadRam (v : Vnode) (ram : ℕ → UInt8) : Option LoadPlan → ℕ → UInt8
  | none => ram
  | some plan => moveBytes v.byte plan.offset ram plan.target plan.size

/-- The state after the switch of `vm_fault` over the status of the page. -/
inductive Resolved (L : Layout) (fp : FaultPage) (va : ℕ) (k : Kernel) : Kernel → Prop
  | reload {f : ℕ} (stats : Vmstat → ℕ) : (k.pt fp.ptRow).InFrame f →
      Resolved L fp va k { k with vmstats := stats }
  | loaded {f : ℕ} {k' : Kernel} (stats : Vmstat → ℕ) :
      (k.pt fp.ptRow).ptStatus = .notLoaded → Granted k.Live k 1 (some fp.ptRow) f k' →
      Resolved L fp va k { k' with
        pt := update k'.pt fp.ptRow ⟨f, 0, fp.segType.resident⟩
        ram := LoadPlan.loadRam fp.proc.pVnode k'.ram (fp.plan L va f)
        vmstats := stats }
  | fetched {f s : ℕ} {k' : Kernel} {bm : Bitmap} (stats : Vmstat → ℕ) :
      (k.pt fp.ptRow).InSlot s → Granted k.Live k 1 (some fp.ptRow) f k' →
      bm.nbits = k'.swap.swapmap.nbits → bm.WF →
      (∀ i, bm.Marked i ↔ k'.swap.swapmap.Marked i ∧ i ≠ s) →
      Resolved L fp va k { k' with
        pt := update k'.pt fp.ptRow ⟨f, 0, fp.segType.resident⟩
        ram := moveBytes k'.swap.swapfile (s * pageSize) k'.ram (f * pageSize) pageSize
        swap := { k'.swap with swapmap := bm }
        vmstats := stats }

theorem SegType.resident_inFrame (ty : SegType) (f s : ℕ) :
    (⟨f, s, ty.resident⟩ : PtEntry).InFrame f := by
  cases ty
  · exact ⟨Or.inr rfl, rfl⟩
  · exact ⟨Or.inl rfl, rfl⟩
  · exact ⟨Or.inl rfl, rfl⟩

section Resolve

variable {k : Kernel} {L : Layout} {fp : FaultPage} {va : ℕ} {f s : ℕ} {k' : Kernel}

/-- The page that is not loaded has its frame : its entry is set. -/
theorem faultLoadBegin_of_has (k' : Kernel) (has : fp.proc.pAddrspace.Has L) (hw : L.WF)
    (hseg : L.segType va = some fp.segType) (hrow : fp.ptRow = ⟨fp.p, L.indexIn fp.segType va⟩)
    (hlt : f < 2 ^ 20) :
    ∃ stats, faultLoadBegin k' fp va (f * pageSize) = .ok (fp.plan L va f, { k' with
      pt := update k'.pt fp.ptRow ⟨f, 0, fp.segType.resident⟩
      vmstats := stats }) := by
  have hc := Layout.contains_of_segType hseg
  have hset := ptSetEntry_eq k' fp.ptRow f fp.segType.resident (s := 0) (by decide)
  rw [Nat.mod_eq_of_lt hlt] at hset
  -- The pages that are read are those outside the stack with bytes in the file.
  have hin : faultInElf fp va =
      .ok (decide (fp.segType ≠ .stack ∧ va < roundup32 (L.seg fp.segType).elfEnd)) := by
    unfold faultInElf
    split_ifs with hst
    · simp [hst]
    · simp [asCheckInElf_of_has has hseg, hst]
  rw [faultLoadBegin, hset, ok_bind, hin, ok_bind]
  unfold FaultPage.plan
  by_cases hload : fp.segType ≠ .stack ∧ va < roundup32 (L.seg fp.segType).elfEnd
  · have hbase : pageFrame (L.seg fp.segType).segFirstVaddr ≤ va := (pageFrame_le _).trans hc.1
    rw [decide_eq_true hload, if_pos rfl, if_pos hload, asLoadPageBegin, ptGetEntry,
      ptGetIndex_of_has has hw hseg, ok_bind, ok_bind, asGetSegment_of_has has hseg, ok_bind,
      kassert_pos hload.2, ok_bind, kassert_pos hbase, ok_bind, ok_bind, ← hrow]
    simp only [vmstatsHit, update_self]
    exact ⟨_, rfl⟩
  · rw [decide_eq_false hload, if_neg Bool.false_ne_true, if_neg hload]
    exact ⟨_, rfl⟩

theorem faultLoadBegin_eq {k : Kernel} (k' : Kernel) (h : FaultAt k L fp va)
    (hlt : f < 2 ^ 20) :
    ∃ stats, faultLoadBegin k' fp va (f * pageSize) = .ok (fp.plan L va f, { k' with
      pt := update k'.pt fp.ptRow ⟨f, 0, fp.segType.resident⟩
      vmstats := stats }) :=
  faultLoadBegin_of_has k' h.built.1 h.built.wf h.segType h.ptRow hlt

/-- The read of the page from the file. -/
theorem faultLoadEnd_spec (k : Kernel) (fp : FaultPage) (plan : Option LoadPlan) :
    Meets Halt.Resource
      (fun k' => k' = { k with ram := LoadPlan.loadRam fp.proc.pVnode k.ram plan })
      (faultLoadEnd k fp plan) := by
  cases plan with
  | none => exact rfl
  | some plan =>
    rw [faultLoadEnd, loadPage]
    cases vopRead fp.proc.pVnode plan.offset plan.size with
    | error e => exact trivial
    | ok moved =>
      dsimp only
      split_ifs
      · exact trivial
      · exact rfl

theorem swapInBegin_eq {k : Kernel} (f : ℕ) (hs : s < swapfileNpages)
    (hm : k.swap.swapmap.Marked s) : swapInBegin k (f * pageSize) s =
      .ok (vmstatsHit (vmstatsHit k .pageFaultDisk) .pageFaultSwap) := by
  rw [swapInBegin, kassert_pos (mul_pageSize_mod f), ok_bind, kassert_pos hs, ok_bind,
    swap_vmstatsHit, swap_vmstatsHit, kassert_pos (show bitmapIsset _ s = true from hm), ok_bind]

/-- The page is read from its slot, which is free then, and its entry is set. -/
theorem faultSwapEnd_spec {ok : Halt → Prop} (k' : Kernel) (hlt : f < 2 ^ 20)
    (hs : s < swapfileNpages) (hwf : k'.swap.swapmap.WF)
    (hn : k'.swap.swapmap.nbits = swapfileNpages) (hm : k'.swap.swapmap.Marked s)
    (hio : k'.swap.ioError s = true → ok (.panic "Error swapping in\n")) :
    Meets ok (fun k'' => ∃ bm, bm.nbits = k'.swap.swapmap.nbits ∧ bm.WF ∧
        (∀ i, bm.Marked i ↔ k'.swap.swapmap.Marked i ∧ i ≠ s) ∧ k'' = { k' with
          pt := update k'.pt fp.ptRow ⟨f, 0, fp.segType.resident⟩
          ram := moveBytes k'.swap.swapfile (s * pageSize) k'.ram (f * pageSize) pageSize
          swap := { k'.swap with swapmap := bm } })
      (faultSwapEnd k' fp (f * pageSize) s) := by
  obtain ⟨bm, hbm, hn', hwf', hm'⟩ := bitmapUnmark_spec hwf (hn ▸ hs) hm
  rw [faultSwapEnd, swapInEnd]
  split_ifs with herr
  · exact hio herr
  · rw [hbm, ok_bind, ok_bind, ptSetEntry_eq _ _ _ _ (by decide), Nat.mod_eq_of_lt hlt]
    exact ⟨bm, hn', hwf', hm', rfl⟩

/-- The page that is in swap, with its frame. -/
theorem faultSwap_spec (k' : Kernel) (hlt : f < 2 ^ 20) (hs : s < swapfileNpages)
    (hwf : k'.swap.swapmap.WF) (hn : k'.swap.swapmap.nbits = swapfileNpages)
    (hm : k'.swap.swapmap.Marked s) :
    Meets Halt.Resource (fun k'' => ∃ bm stats, bm.nbits = k'.swap.swapmap.nbits ∧ bm.WF ∧
        (∀ i, bm.Marked i ↔ k'.swap.swapmap.Marked i ∧ i ≠ s) ∧ k'' = { k' with
          pt := update k'.pt fp.ptRow ⟨f, 0, fp.segType.resident⟩
          ram := moveBytes k'.swap.swapfile (s * pageSize) k'.ram (f * pageSize) pageSize
          swap := { k'.swap with swapmap := bm }
          vmstats := stats })
      (do
        let k' ← swapInBegin k' (f * pageSize) s
        faultSwapEnd k' fp (f * pageSize) s) := by
  rw [swapInBegin_eq f hs hm, ok_bind]
  refine (faultSwapEnd_spec (vmstatsHit (vmstatsHit k' .pageFaultDisk) .pageFaultSwap) hlt hs hwf
    hn hm fun _ => trivial).mono ?_
  rintro k'' ⟨bm, hn', hwf', hm', rfl⟩
  exact ⟨bm, _, hn', hwf', hm', rfl⟩

/-- The frame of a page that is granted can be named by its entry. -/
theorem Granted.lt_frameIndex {e : Option PtPtr}
    (hgr : Granted k.Live k 1 e f k') (hk : k.Owned (.quiet k.Live)) : f < 2 ^ 20 := by
  have h1 := hgr.lt hk Nat.one_pos
  have h2 := hk.frames.wf.nRamFrames_le
  omega

/-- With its frame granted, a page that was not loaded is read from the file. -/
theorem Granted.load_spec (hgr : Granted k.Live k 1 (some fp.ptRow) f k')
    (hk : k.Owned (.quiet k.Live)) (h : FaultAt k L fp va)
    (hst : (k.pt fp.ptRow).ptStatus = .notLoaded) (stats : Vmstat → ℕ) :
    Meets Halt.Resource (Resolved L fp va k) (do
      let (plan, k) ← faultLoadBegin { k' with vmstats := stats } fp va (f * pageSize)
      faultLoadEnd k fp plan) := by
  obtain ⟨stats', hbegin⟩ :=
    faultLoadBegin_eq { k' with vmstats := stats } h (hgr.lt_frameIndex hk)
  rw [hbegin, ok_bind]
  refine (faultLoadEnd_spec _ fp (fp.plan L va f)).mono ?_
  rintro k'' rfl
  exact .loaded stats' hst hgr

/-- With its frame granted, a page is fetched from swap. -/
theorem Granted.fetch_spec (hgr : Granted k.Live k 1 (some fp.ptRow) f k')
    (hk : k.Owned (.quiet k.Live)) (h : FaultAt k L fp va)
    (hst : (k.pt fp.ptRow).ptStatus = .inSwap) (stats : Vmstat → ℕ) :
    Meets Halt.Resource (Resolved L fp va k) (do
      let k'' ← swapInBegin { k' with vmstats := stats } (f * pageSize) (k'.pt fp.ptRow).ptSwapIndex
      faultSwapEnd k'' fp (f * pageSize) (k'.pt fp.ptRow).ptSwapIndex) := by
  have hslot : (k.pt fp.ptRow).InSlot (k.pt fp.ptRow).ptSwapIndex := ⟨hst, rfl⟩
  have hpt := hgr.pt_eq hslot.not_inFrame
  have hk' := hgr.owned hk Nat.one_pos fun _ => rfl
  obtain ⟨hs, hm⟩ := hk'.slots.marked_of_inSlot h.live (by rw [hpt]; exact hslot)
  rw [hpt]
  refine (faultSwap_spec { k' with vmstats := stats } (hgr.lt_frameIndex hk) hs
    hk'.slots.wf hk'.slots.nbits hm).mono ?_
  rintro k'' ⟨bm, stats', hn, hwf, hm', rfl⟩
  have hres : Resolved L fp va k _ := .fetched stats' hslot hgr hn hwf hm'
  exact hres

theorem faultResolve_spec (hk : k.Owned (.quiet k.Live)) (h : FaultAt k L fp va) :
    Meets Halt.Resource (Resolved L fp va k) (faultResolve k fp va) := by
  unfold faultResolve
  cases hst : (k.pt fp.ptRow).ptStatus with
  | inMemory => exact .reload (f := (k.pt fp.ptRow).ptFrameIndex) _ ⟨Or.inl hst, rfl⟩
  | inMemoryRdonly => exact .reload (f := (k.pt fp.ptRow).ptFrameIndex) _ ⟨Or.inr hst, rfl⟩
  | notLoaded =>
    refine (getppages_spec hk Nat.one_pos (some fp.ptRow)).bind ?_
    rintro ⟨paddr, k'⟩ ⟨f, -, rfl, hgr⟩
    exact hgr.load_spec hk h hst k'.vmstats
  | inSwap =>
    refine (getppages_spec hk Nat.one_pos (some fp.ptRow)).bind ?_
    rintro ⟨paddr, k'⟩ ⟨f, -, rfl, hgr⟩
    exact hgr.fetch_spec hk h hst k'.vmstats

/-- A resolved fault leaves the page in memory and the records in agreement. -/
theorem Resolved.owned (hr : Resolved L fp va k k') (hk : k.Owned (.quiet k.Live))
    (h : FaultAt k L fp va) : k'.Owned (.quiet k.Live) := by
  have hlive := h.live
  cases hr with
  | reload stats hf => exact ⟨hk.frames, hk.slots⟩
  | @loaded f k₁ stats hst hgr =>
    have hno := PtEntry.not_inFrame_of_notLoaded hst
    have hnos := PtEntry.not_inSlot_of_notLoaded hst
    have hpt := hgr.pt_eq hno
    have hx := fp.segType.resident_inFrame f 0
    obtain ⟨h1, h2⟩ := hgr.owned hk Nat.one_pos fun _ => rfl
    have hfill := h1.fill hlive (Ghost.limbo_grant _ _ _) hgr.owner_self (by rw [hpt]; exact hno) hx
    rw [Ghost.fill_grant _ (fun hf => hf)] at hfill
    have hslots := h2.setRow (e := fp.ptRow) (by rw [hpt]; exact hnos) hx.not_inSlot
    exact ⟨hfill, ⟨hslots.wf, hslots.nbits, hslots.lt, hslots.marked, hslots.unique⟩⟩
  | @fetched f s k₁ bm stats hslot hgr hn hwf hm =>
    have hpt := hgr.pt_eq hslot.not_inFrame
    have hx := fp.segType.resident_inFrame f 0
    obtain ⟨h1, h2⟩ := hgr.owned hk Nat.one_pos fun _ => rfl
    have hfill := h1.fill hlive (Ghost.limbo_grant _ _ _) hgr.owner_self
      (by rw [hpt]; exact hslot.not_inFrame) hx
    rw [Ghost.fill_grant _ (fun hf => hf)] at hfill
    have hslots := h2.fetch (e := fp.ptRow) hlive (by rw [hpt]; exact hslot) hx.not_inSlot hwf hn hm
    exact ⟨hfill, ⟨hslots.wf, hslots.nbits, hslots.lt, hslots.marked, hslots.unique⟩⟩

theorem Resolved.procs (hr : Resolved L fp va k k') :
    k'.procs = k.procs ∧ k'.curproc = k.curproc := by
  cases hr with
  | reload => exact ⟨rfl, rfl⟩
  | loaded _ _ hgr | fetched _ _ hgr => exact ⟨hgr.procs, hgr.curproc⟩

theorem Resolved.inFrame (hr : Resolved L fp va k k') :
    (k'.pt fp.ptRow).InFrame (k'.pt fp.ptRow).ptFrameIndex := by
  cases hr with
  | reload stats hf => exact ⟨hf.1, rfl⟩
  | @loaded f k₁ stats hst hgr | @fetched f s k₁ bm stats hslot hgr =>
    simp only [update_self]
    exact fp.segType.resident_inFrame f 0

/-- The TLB entry of the page `fp`, in frame `f`. -/
def FaultPage.tlbEntry (fp : FaultPage) (va f : ℕ) : TlbEntry :=
  ⟨pageFrame va, f * pageSize, !decide (fp.segType = .text), true⟩

theorem faultInsert_eq (k : Kernel) (fp : FaultPage) (va : ℕ) :
    ∃ stats, faultInsert k fp va = .ok { k with
      tlb := k.tlb.insert (fp.tlbEntry va (k.pt fp.ptRow).ptFrameIndex)
      vmstats := stats } := by
  rw [faultInsert, tlbInsert, kassert_pos (pageFrame_mul _), ok_bind]
  exact ⟨_, rfl⟩

end Resolve

/-! ## `vm_fault` -/

/-- What a fault that started in state `k` does. -/
def FaultPost (k : Kernel) (ty : FaultType) (va : ℕ) : FaultResult × Kernel → Prop
  | (.ret none, k') => (ty = .read ∨ ty = .write) ∧ ∃ L fp k₁ stats, FaultAt k L fp va ∧
      Resolved L fp va k k₁ ∧ k' = { k₁ with
        tlb := k₁.tlb.insert (fp.tlbEntry va (k₁.pt fp.ptRow).ptFrameIndex)
        vmstats := stats }
  | (r, k') => LookupPost k ty va (.inl r) ∧ k' = k

theorem vmFault_spec (hk : k.Owned (.quiet k.Live)) (hp : k.ProcsOk)
    (ty : FaultType) (va : ℕ) :
    Meets Halt.Resource (FaultPost (vmstatsHit k .tlbFault) ty va) (vmFault k ty va) := by
  have hk' : (vmstatsHit k .tlbFault).Owned (.quiet (vmstatsHit k .tlbFault).Live) :=
    ⟨hk.frames, hk.slots⟩
  obtain ⟨r, hr, hpost⟩ := faultLookup_spec (k := vmstatsHit k .tlbFault) hp ty va
  rw [vmFault, hr, ok_bind]
  match r, hpost with
  | .inl (.ret none), hpost => exact absurd hpost.1 (by simp)
  | .inl (.ret (some e)), hpost => exact ⟨hpost, rfl⟩
  | .inl (.exit status), hpost => exact ⟨hpost, rfl⟩
  | .inr fp, ⟨hty, L, hat⟩ =>
    refine (faultResolve_spec hk' hat).bind fun k₁ hres => ?_
    obtain ⟨stats, hins⟩ := faultInsert_eq k₁ fp va
    rw [hins, ok_bind]
    exact ⟨hty, L, fp, k₁, stats, hat, hres, rfl⟩

/-- A fault keeps the records in agreement, and the processes as they are. -/
theorem FaultPost.owned {ty : FaultType} {va : ℕ} {r : FaultResult × Kernel}
    (h : FaultPost k ty va r) (hk : k.Owned (.quiet k.Live)) :
    r.2.Owned (.quiet k.Live) ∧ r.2.procs = k.procs ∧ r.2.curproc = k.curproc := by
  match r, h with
  | (.ret none, _), ⟨_, L, fp, k₁, stats, hat, hres, hr⟩ =>
    subst hr
    exact ⟨⟨(hres.owned hk hat).frames, (hres.owned hk hat).slots⟩, hres.procs⟩
  | (.ret (some e), _), ⟨_, hr⟩ =>
    subst hr
    exact ⟨hk, rfl, rfl⟩
  | (.exit status, _), ⟨_, hr⟩ =>
    subst hr
    exact ⟨hk, rfl, rfl⟩

/-! ## `as_destroy` -/

/-- The entries from `i` on of the table of `p`, and those of the other tables. -/
def liveFrom (live : PtPtr → Prop) (p i : ℕ) (e : PtPtr) : Prop :=
  live e ∧ (e.asid = p → i ≤ e.index)

theorem liveFrom_succ (live : PtPtr → Prop) (p i : ℕ) :
    liveFrom live p (i + 1) = fun e => liveFrom live p i e ∧ e ≠ ⟨p, i⟩ := by
  funext ⟨q, j⟩
  simp only [liveFrom, PtPtr.mk.injEq, eq_iff_iff, ne_eq]
  constructor
  · rintro ⟨hl, h⟩
    refine ⟨⟨hl, fun hq => (Nat.le_succ i).trans (h hq)⟩, ?_⟩
    rintro ⟨rfl, rfl⟩
    omega
  · rintro ⟨⟨hl, h⟩, hne⟩
    refine ⟨hl, fun hq => ?_⟩
    omega

/-- What the destruction of a table leaves alone. -/
structure Emptied (k k' : Kernel) : Prop where
  ram : k'.ram = k.ram
  swapfile : k'.swap.swapfile = k.swap.swapfile
  tlb : k'.tlb = k.tlb
  pt : k'.pt = k.pt
  procs : k'.procs = k.procs
  curproc : k'.curproc = k.curproc
  owner : k'.coremap.owner = k.coremap.owner
  nRamFrames : k'.coremap.nRamFrames = k.coremap.nRamFrames
  kernel : ∀ f, k.coremap.owner f = none → k'.coremap.used f = k.coremap.used f ∧
    k'.coremap.size f = k.coremap.size f

theorem Emptied.refl (k : Kernel) : Emptied k k :=
  ⟨rfl, rfl, rfl, rfl, rfl, rfl, rfl, rfl, fun _ _ => ⟨rfl, rfl⟩⟩

theorem Emptied.trans {k' k'' : Kernel} (h : Emptied k k') (h' : Emptied k' k'') :
    Emptied k k'' where
  ram := h'.ram.trans h.ram
  swapfile := h'.swapfile.trans h.swapfile
  tlb := h'.tlb.trans h.tlb
  pt := h'.pt.trans h.pt
  procs := h'.procs.trans h.procs
  curproc := h'.curproc.trans h.curproc
  owner := h'.owner.trans h.owner
  nRamFrames := h'.nRamFrames.trans h.nRamFrames
  kernel f hf := by
    obtain ⟨h1, h2⟩ := h.kernel f hf
    obtain ⟨h3, h4⟩ := h'.kernel f (by rw [h.owner]; exact hf)
    exact ⟨h3.trans h1, h4.trans h2⟩

/-- One round of `pt_empty` : the frame or the slot of the entry is free. Its frame must not
be on its way to swap. -/
theorem ptEmptyEntry_spec {e : PtPtr} (hk : k.Owned g) (hl : g.live e)
    (hout : ∀ f, (k.pt e).InFrame f → g.out f = none) :
    ∃ k', ptEmptyEntry k e = .ok k' ∧ k'.Owned (g.drop e) ∧ Emptied k k' := by
  have hres : ∀ f, (k.pt e).InFrame f →
      ∃ k', freeUpage k ((k.pt e).ptFrameIndex * pageSize) = .ok k' ∧ k'.Owned (g.drop e) ∧
        Emptied k k' := by
    rintro f hf
    obtain ⟨h1, h2, h3, h4⟩ := hk.frames.resident e f hl hf
    refine ⟨{ k with coremap := k.coremap.release f }, ?_, ?_, ?_⟩
    · rw [hf.2, freeUpage, freeppages, coremapFreeppages_eq hk.frames.wf h1 (by omega), ok_bind]
    · exact ⟨hk.frames.drop hl hf (hout f hf), hk.slots.drop_absent hf.not_inSlot⟩
    · refine ⟨rfl, rfl, rfl, rfl, rfl, rfl, rfl, rfl, fun f' hf' => ?_⟩
      have hne : f' ≠ f := by
        rintro rfl
        rw [h4] at hf'
        cases hf'
      rw [Coremap.used_release, Coremap.size_release, if_neg (by omega), if_neg hne]
      exact ⟨rfl, rfl⟩
  unfold ptEmptyEntry
  cases hst : (k.pt e).ptStatus with
  | inMemory => exact hres _ ⟨Or.inl hst, rfl⟩
  | inMemoryRdonly => exact hres _ ⟨Or.inr hst, rfl⟩
  | notLoaded =>
    exact ⟨k, rfl, ⟨hk.frames.drop_absent (PtEntry.not_inFrame_of_notLoaded hst),
      hk.slots.drop_absent (PtEntry.not_inSlot_of_notLoaded hst)⟩, .refl k⟩
  | inSwap =>
    have hslot : (k.pt e).InSlot (k.pt e).ptSwapIndex := ⟨hst, rfl⟩
    obtain ⟨hs, hm⟩ := hk.slots.marked_of_inSlot hl hslot
    obtain ⟨bm, hbm, hn, hwf, hm'⟩ := bitmapUnmark_spec hk.slots.wf (hk.slots.nbits ▸ hs) hm
    refine ⟨{ k with swap := { k.swap with swapmap := bm } }, ?_, ?_, ?_⟩
    · rw [swapFree, hbm, ok_bind]
    · exact ⟨hk.frames.drop_absent hslot.not_inFrame, hk.slots.drop hl hslot hwf hn hm'⟩
    · exact ⟨rfl, rfl, rfl, rfl, rfl, rfl, rfl, rfl, fun _ _ => ⟨rfl, rfl⟩⟩

/-- `pt_empty` over the rest of the table. -/
theorem ptEmptyLoop_spec {p N : ℕ} (hN : ∀ i, g.live ⟨p, i⟩ ↔ i < N) :
    ∀ (n i : ℕ) (k : Kernel), i + n = N → k.Owned { g with live := liveFrom g.live p i } →
      (∀ i f, i < N → (k.pt ⟨p, i⟩).InFrame f → g.out f = none) →
        ∃ k', ptEmptyLoop p n i k = .ok k' ∧
          k'.Owned { g with live := liveFrom g.live p N } ∧ Emptied k k'
  | 0, i, k, hi, hk, _ => by
    obtain rfl : i = N := by omega
    exact ⟨k, rfl, hk, .refl k⟩
  | n + 1, i, k, hi, hk, hout => by
    have hl : liveFrom g.live p i ⟨p, i⟩ := ⟨(hN i).mpr (by omega), fun _ => le_rfl⟩
    obtain ⟨k₁, h1, hk₁, he₁⟩ := ptEmptyEntry_spec hk hl fun f => hout i f (by omega)
    have hk₁' : k₁.Owned { g with live := liveFrom g.live p (i + 1) } := by
      rw [liveFrom_succ]
      exact hk₁
    obtain ⟨k', h2, hk', he'⟩ := ptEmptyLoop_spec hN n (i + 1) k₁ (by omega) hk₁'
      (by rw [he₁.pt]; exact hout)
    exact ⟨k', by rw [ptEmptyLoop, h1, ok_bind, h2], hk', he₁.trans he'⟩

/-- `as_destroy` of an address space none of whose frames is on its way to swap. -/
theorem asDestroy_spec {p : ℕ} {pr : Proc}
    (hk : k.Owned g) (hlive : g.live = k.Live) (hp : k.procs p = some pr)
    (hL : pr.pAddrspace.Has L)
    (hout : ∀ i f, i < L.npages → (k.pt ⟨p, i⟩).InFrame f → g.out f = none) :
    ∃ k' k₁, asDestroy k p = .ok k' ∧ Emptied k k₁ ∧
      k' = { k₁ with procs := update k.procs p none } ∧
      k'.Owned { g with live := k'.Live } := by
  have hN : ∀ i, g.live ⟨p, i⟩ ↔ i < L.npages := by
    intro i
    rw [hlive]
    exact Kernel.live_iff hp hL
  have h0 : k.Owned { g with live := liveFrom g.live p 0 } := by
    have : liveFrom g.live p 0 = g.live := by
      funext e
      simp [liveFrom]
    rw [this]
    exact hk
  obtain ⟨k₁, h1, hk₁, he⟩ := ptEmptyLoop_spec hN L.npages 0 k (Nat.zero_add _) h0 hout
  refine ⟨{ k₁ with procs := update k.procs p none }, k₁, ?_, he, rfl, ?_⟩
  · have hsome : pr.pAddrspace.asPtable.isSome := by rw [hL]; rfl
    have hd : pr.pAddrspace.asData = some L.data := by rw [hL]
    have ht : pr.pAddrspace.asText = some L.text := by rw [hL]
    have hs : pr.pAddrspace.asStack = some L.stack := by rw [hL]
    have hloop : ptEmptyLoop p (L.data.segNpages + L.text.segNpages + L.stack.segNpages) 0 k =
        .ok k₁ := h1
    rw [asDestroy, hp]
    dsimp only
    rw [hd, deref_some, ok_bind, ht, deref_some, ok_bind, hs, deref_some, ok_bind,
      kassert_pos hsome, ok_bind, hloop, ok_bind, he.procs]
  · have hnew : Kernel.Live { k₁ with procs := update k.procs p none } =
        liveFrom g.live p L.npages := by
      funext ⟨q, i⟩
      by_cases hq : q = p
      · subst hq
        simp only [Kernel.Live, update_self, liveFrom, hN, true_implies]
        simp [not_le]
      · simp [Kernel.Live, liveFrom, hq, hlive]
    rw [hnew]
    exact ⟨hk₁.frames, hk₁.slots⟩

end OS161
