import Mathlib.Data.List.ReduceOption
import OS161.Overlap

/-!
# Stores during a swap-out

A store to the page after it has been copied to the device goes to the frame and not to swap,
and is lost (`store_lost_small`). Without such stores the swap-out might as well happen at its
end : at every point there is a state in which it has not begun and that the processes cannot
tell from the real one, and the real state differs from it by the steps already made
(`Writeback.Follows`). The last step brings the two together (`Pending.finish`). So the loads
of such a run return what was last stored (`loads_current_of_run`).
-/

namespace OS161

open Function

variable {k k' : Kernel}

/-! ## The invariant -/

/-- Frame `f` is in slot `s` : only the frame of the page matters. -/
theorem Kernel.startOut_swap_congr {f s : ℕ} {bm : Bitmap} (hs : k'.swap = k.swap)
    (hram : ∀ o < pageSize, k'.ram (f * pageSize + o) = k.ram (f * pageSize + o)) :
    (k'.startOut f s bm).swap = (k.startOut f s bm).swap := by
  simp only [startOut, hs]
  congr 1
  funext a
  simp only [moveBytes]
  split_ifs with ha
  · exact hram _ (by omega)
  · rfl

/-- The steps of the swap-out that have been made, as the difference between the state `k₀` in
which it has not begun and the state `k`. The page is that of entry `e`. -/
def Writeback.Follows (w : Writeback) (e : PtPtr) (k₀ k : Kernel) : Prop :=
  match w.stage with
  | .locked => k.coremap = (k₀.lockVictim w.victim).coremap ∧ k.swap = k₀.swap ∧ k.pt = k₀.pt
  | .copied s iobuf => ∃ bm, AllocPost k₀.swap.swapmap (some (s, bm)) ∧
      k.coremap = (k₀.lockVictim w.victim).coremap ∧ k.swap = { k₀.swap with swapmap := bm } ∧
      k.pt = k₀.pt ∧ ∀ o < pageSize, iobuf o = k₀.ram (w.victim * pageSize + o)
  | .written s => ∃ bm, AllocPost k₀.swap.swapmap (some (s, bm)) ∧
      k.coremap = (k₀.lockVictim w.victim).coremap ∧
      k.swap = (k₀.startOut w.victim s bm).swap ∧ k.pt = k₀.pt
  | .moved s => ∃ bm, AllocPost k₀.swap.swapmap (some (s, bm)) ∧
      k.coremap = ((k₀.startOut w.victim s bm).finishOut w.victim s e).coremap ∧
      k.swap = (k₀.startOut w.victim s bm).swap ∧
      k.pt = update k₀.pt e ⟨0, s, .inSwap⟩

/-- What keeps the records, and the page once it has been copied, keeps the difference. -/
theorem Writeback.Follows.of_kept {w : Writeback} {e : PtPtr} {k₀ k₀' : Kernel}
    (h : w.Follows e k₀ k) (hk₀ : k₀.Kept k₀') (hk : k.Kept k')
    (hram : w.stage ≠ .locked → ∀ o < pageSize,
      k₀'.ram (w.victim * pageSize + o) = k₀.ram (w.victim * pageSize + o)) :
    w.Follows e k₀' k' := by
  have hlock : (k₀'.lockVictim w.victim).coremap = (k₀.lockVictim w.victim).coremap := by
    simp only [Kernel.lockVictim, hk₀.coremap]
  unfold Follows at h ⊢
  rw [hk.coremap, hk.swap, hk.pt, hk₀.pt, hk₀.swap]
  cases hst : w.stage with
  | locked =>
    rw [hst] at h
    rwa [hlock]
  | copied s iobuf =>
    rw [hst] at h
    obtain ⟨bm, hbm, hcm, hswap, hpt, hbuf⟩ := h
    refine ⟨bm, hbm, by rw [hcm, hlock], hswap, hpt, fun o ho => ?_⟩
    rw [hbuf o ho, hram (by simp [hst]) o ho]
  | written s =>
    rw [hst] at h
    obtain ⟨bm, hbm, hcm, hswap, hpt⟩ := h
    refine ⟨bm, hbm, by rw [hcm, hlock], ?_, hpt⟩
    rw [hswap, Kernel.startOut_swap_congr hk₀.swap (hram (by simp [hst]))]
  | moved s =>
    rw [hst] at h
    obtain ⟨bm, hbm, hcm, hswap, hpt⟩ := h
    refine ⟨bm, hbm, ?_, ?_, hpt⟩
    · simp only [hcm, Kernel.startOut, Kernel.finishOut, hk₀.coremap]
    · rw [hswap, Kernel.startOut_swap_congr hk₀.swap (hram (by simp [hst]))]

/-- A swap-out is under way in state `k`, and `k₀` is the state in which it has not begun. There
the invariants of the sequential system hold. -/
structure Pending (mem : ℕ → ℕ → UInt8) (kblocks : List ℕ) (w : Writeback) (e : PtPtr)
    (k₀ k : Kernel) : Prop where
  inv : Sys.TlbInv ⟨k₀, kblocks⟩
  holds : k₀.Holds mem
  live : k₀.Live e
  inFrame : (k₀.pt e).InFrame w.victim
  writable : (k₀.pt e).ptStatus = .inMemory
  request : k₀.RequestOk w.page.p w.request
  shadow : k₀.Shadow k
  follows : w.Follows e k₀ k

/-- The invariant : the memory is that of the trace, in the state itself or in the one in which
the swap-out has not begun. -/
def Overlap.Inv (tr : List (Option Event)) (s : Overlap) : Prop :=
  match s.out with
  | none => s.sys.TlbInv ∧ s.sys.kernel.Holds (flatMemory tr.reduceOption)
  | some w => ∃ e k₀, Pending (flatMemory tr.reduceOption) s.sys.kblocks w e k₀ s.sys.kernel

/-! ## Accesses during the swap-out -/

/-- Address `va` of process `p` is on the page that frame `f` is recorded for. -/
def Kernel.OnFrame (k : Kernel) (p va f : ℕ) : Prop :=
  ∃ pr a e, k.procs p = some pr ∧ pageFrame a = pageFrame va ∧
    ptGetEntry p pr.pAddrspace a = .ok e ∧ k.coremap.owner f = some e

/-- Once the page has been copied, nothing is stored into it. -/
def Writeback.Spares (w : Writeback) (k : Kernel) : Event → Prop
  | .stored p va _ => w.stage = .locked ∨ ¬k.OnFrame p va w.victim
  | _ => True

/-- The sequential system is disciplined, and the page on its way to swap is spared. -/
def Overlap.Disciplined (s : Overlap) : Option Event → Prop
  | none => True
  | some ev => s.sys.Disciplined ev ∧ ∀ w ∈ s.out, w.Spares s.sys.kernel ev

theorem Writeback.Follows.owner {w : Writeback} {e : PtPtr} {k₀ : Kernel} (h : w.Follows e k₀ k)
    (f : ℕ) : k.coremap.owner f = k₀.coremap.owner f := by
  have hlock : ∀ l,
      (Coremap.setLock { k₀.coremap with victimIndex := w.victim } w.victim l).owner f =
      k₀.coremap.owner f := fun l => Coremap.owner_setLock
  unfold Follows at h
  cases hst : w.stage with
  | locked =>
    rw [hst] at h
    rw [h.1]
    exact hlock true
  | copied s iobuf | written s =>
    rw [hst] at h
    obtain ⟨bm, -, hcm, -⟩ := h
    rw [hcm]
    exact hlock true
  | moved s =>
    rw [hst] at h
    obtain ⟨bm, -, hcm, -⟩ := h
    rw [hcm, Kernel.finishOut, Coremap.owner_setLock]
    exact hlock true

/-- With its frame granted, the fault goes on to its end. -/
theorem Granted.request_spec {L : Layout} {fp : FaultPage} {va f : ℕ}
    {swapped : Bool} (hgr : Granted k.Live k 1 (some fp.ptRow) f k') (hk : k.Owned (.quiet k.Live))
    (h : FaultAt k L fp va)
    (hst : (k.pt fp.ptRow).ptStatus = if swapped then .inSwap else .notLoaded)
    (stats : Vmstat → ℕ) :
    Meets Halt.Resource (fun r => FaultPost k .read va (.ret none, r.2))
      (requestEnd { k' with vmstats := stats } (f * pageSize) (.page fp va swapped) >>=
        uninterrupted 1) := by
  have hfinish : ∀ k₁, Resolved L fp va k k₁ →
      Meets Halt.Resource (fun r => FaultPost k .read va (.ret none, r.2))
        (finishFault fp va k₁) := by
    intro k₁ hres
    obtain ⟨stats', hins⟩ := faultInsert_eq k₁ fp va
    rw [finishFault, hins, ok_bind]
    exact ⟨Or.inl rfl, L, fp, k₁, stats', h, hres, rfl⟩
  unfold requestEnd checkPpages
  split_ifs with h0
  · exact trivial
  rw [ok_bind]
  cases swapped with
  | false =>
    rw [uninterrupted_load]
    have hload := (hgr.load_spec hk h hst stats).bind hfinish
    rwa [bind_assoc] at hload
  | true =>
    rw [uninterrupted_swapIn]
    have hfetch := (hgr.fetch_spec hk h hst stats).bind hfinish
    rwa [bind_assoc] at hfetch

namespace Pending

variable {mem : ℕ → ℕ → UInt8} {kblocks : List ℕ} {w : Writeback} {e : PtPtr} {k₀ k : Kernel}
  {op : SysOp} {s : ℕ} {iobuf : ℕ → UInt8} {k' : Kernel}

theorem owner (h : Pending mem kblocks w e k₀ k) : k.coremap.owner w.victim = some e := by
  rw [h.follows.owner]
  exact (h.inv.inv.kernel.owned.frames.resident e w.victim h.live h.inFrame).2.2.2

theorem allowed (h : Pending mem kblocks w e k₀ k) (hop : k.NeedsNoFrame op)
    (hal : Sys.Allowed ⟨k, kblocks⟩ op) : Sys.Allowed ⟨k₀, kblocks⟩ op := by
  cases op with
  | build p v => exact hop.elim
  | destroy p => exact hop.elim
  | allocKpages n => exact hop.elim
  | freeKpages addr => exact hop.elim
  | switch p =>
    cases p with
    | none => trivial
    | some p => simpa only [Sys.Allowed, h.shadow.procs] using hal
  | fault ty va => trivial
  | load va | store va b => simpa only [Sys.Allowed, h.shadow.curproc] using hal

theorem disciplined (h : Pending mem kblocks w e k₀ k) {ev : Event}
    (hd : Sys.Disciplined ⟨k, kblocks⟩ ev) : Sys.Disciplined ⟨k₀, kblocks⟩ ev := by
  cases ev with
  | faulted ty va r => simpa only [Sys.Disciplined, h.shadow.tlb] using hd
  | _ => exact hd

/-- An access that spares the page keeps the frame of the page as it was copied. -/
theorem ram_eq (h : Pending mem kblocks w e k₀ k) {r₀ r : Event × Sys}
    (hal : Sys.Allowed ⟨k₀, kblocks⟩ op) (hin : InStep op k₀ k kblocks r₀ r) (hinv : r₀.2.TlbInv)
    (hsp : w.Spares k r₀.1) (hst : w.stage ≠ .locked) :
    ∀ o < pageSize, r₀.2.kernel.ram (w.victim * pageSize + o) =
      k₀.ram (w.victim * pageSize + o) := by
  rcases hin.ram with hram | ⟨va, b, pa, rfl, hev, hva, hc, htr, hram⟩
  · intro o _
    rw [hram]
  obtain ⟨p, hp⟩ := Option.isSome_iff_exists.mp hal
  obtain ⟨pr, hpr⟩ := Option.isSome_iff_exists.mp (hinv.current p (hc.trans hp))
  obtain ⟨L, hL⟩ := hinv.inv.kernel.procs p pr hpr
  obtain ⟨ty, a, f, hat, hpage, hf, rfl, -⟩ :=
    hinv.tlbOk.translate hinv.inv.kernel.shaped hva (hc.trans hp) hpr hL htr
  -- The store goes to a page of another entry, hence to another frame.
  have hne : f ≠ w.victim := by
    rintro rfl
    rw [hin.kept₀.pt] at hf
    have hlive : k₀.Live ⟨p, L.indexIn ty a⟩ := (hat.of_procs hin.kept₀.procs).live
    have he := h.inv.inv.kernel.owned.frames.resident_inj hlive h.live hf h.inFrame
    have hseg := Layout.segType_of_contains (hL.pagesDisjoint (hinv.disjoint p pr hpr)) hat.contains
    rw [hev, hp, Option.getD_some] at hsp
    refine hsp.elim hst fun hno => hno ⟨pr, a, e, ?_, hpage.symm, ?_, h.owner⟩
    · rw [h.shadow.procs, ← hin.kept₀.procs, hpr]
    · rw [ptGetEntry, ptGetIndex_of_has hL.1 hL.wf hseg, ok_bind, he]
  intro o ho
  rw [hram, update_of_ne]
  intro heq
  have hdiv := congrArg (· / pageSize) heq
  rw [mul_pageSize_add_div ho, mul_pageSize_add_div (pageOffset_lt va)] at hdiv
  exact hne hdiv.symm

/-- An access during the swap-out might have been made before it. -/
theorem user {tr : List Event} (h : Pending (flatMemory tr) kblocks w e k₀ k)
    {ev : Event} {s' : Sys} (hal : Sys.Allowed ⟨k, kblocks⟩ op) (hop : k.NeedsNoFrame op)
    (he : Sys.exec ⟨k, kblocks⟩ op = .ok (ev, s')) (hd : Sys.Disciplined ⟨k, kblocks⟩ ev)
    (hsp : w.Spares k ev) :
    s'.kblocks = kblocks ∧ k.Kept s'.kernel ∧
      ∃ k₀', k₀.Kept k₀' ∧ Pending (flatMemory (ev :: tr)) kblocks w e k₀' s'.kernel := by
  obtain ⟨⟨ev₀, s₀'⟩, he₀, hin⟩ := (Sys.exec_agree h.shadow hop).of_ok he
  obtain rfl : ev₀ = ev := hin.event
  have hal₀ := h.allowed hop hal
  have hd₀ := h.disciplined hd
  have hstep : Sys.Step ⟨k₀, kblocks⟩ ev₀ s₀' := ⟨op, hal₀, he₀⟩
  have hinv := Sys.step_tlbInv h.inv hstep hd₀
  have hholds := Sys.step_flat h.inv h.holds hstep hd₀
  have hfollows := h.follows.of_kept hin.kept₀ hin.kept fun hst => h.ram_eq hal₀ hin hinv hsp hst
  have hlive : s₀'.kernel.Live e := by
    unfold Kernel.Live
    rw [hin.kept₀.procs]
    exact h.live
  refine ⟨hin.kblocks, hin.kept, s₀'.kernel, hin.kept₀, ?_, hholds, hlive, ?_, ?_, ?_, hin.shadow,
    hfollows⟩
  · rw [← hin.kblocks₀]
    exact hinv
  · rw [hin.kept₀.pt]
    exact h.inFrame
  · rw [hin.kept₀.pt]
    exact h.writable
  · exact h.request.congr (by rw [hin.kept₀.procs]) fun _ _ => by rw [hin.kept₀.pt]

/-! ## The steps of the swap-out -/

/-- The page is copied. -/
theorem copy (h : Pending mem kblocks w e k₀ k)
    (hst : w.stage = .locked) (he : swapOutCopy k (w.victim * pageSize) = .ok (s, iobuf, k')) :
    Pending mem kblocks { w with stage := .copied s iobuf } e k₀ k' := by
  obtain ⟨hcm, hswap, hpt⟩ : k.coremap = (k₀.lockVictim w.victim).coremap ∧ k.swap = k₀.swap ∧
      k.pt = k₀.pt := by simpa only [Writeback.Follows, hst] using h.follows
  have hspec := bitmapAlloc_spec h.inv.inv.kernel.owned.slots.wf
  rw [swapOutCopy, kassert_pos (mul_pageSize_mod w.victim), ok_bind, swap_vmstatsHit, hswap] at he
  obtain ⟨r, hr, he⟩ := bind_eq_ok.mp he
  cases r with
  | none => cases he
  | some r =>
    obtain ⟨s', bm⟩ := r
    cases he
    refine ⟨h.inv, h.holds, h.live, h.inFrame, h.writable, h.request, ⟨h.shadow.ram, h.shadow.tlb,
      h.shadow.procs, h.shadow.curproc, h.shadow.pt⟩, bm, hspec.of_ok hr, hcm, rfl, hpt, ?_⟩
    exact fun o _ => congrFun h.shadow.ram _

/-- The device writes its buffer. -/
theorem write (h : Pending mem kblocks w e k₀ k)
    (hst : w.stage = .copied s iobuf) (he : swapOutWrite k s iobuf = .ok k') :
    Pending mem kblocks { w with stage := .written s } e k₀ k' := by
  have hfollows := h.follows
  simp only [Writeback.Follows, hst] at hfollows
  obtain ⟨bm, hbm, hcm, hswap, hpt, hbuf⟩ := hfollows
  unfold swapOutWrite at he
  split_ifs at he
  cases he
  refine ⟨h.inv, h.holds, h.live, h.inFrame, h.writable, h.request, ⟨h.shadow.ram, h.shadow.tlb,
    h.shadow.procs, h.shadow.curproc, h.shadow.pt⟩, bm, hbm, hcm, ?_, hpt⟩
  -- The buffer holds the page, and nothing else of the swap file changes.
  have hfile : moveBytes iobuf 0 k₀.swap.swapfile (s * pageSize) pageSize =
      moveBytes k₀.ram (w.victim * pageSize) k₀.swap.swapfile (s * pageSize) pageSize := by
    funext a
    unfold moveBytes
    split_ifs with ha
    · rw [Nat.zero_add, hbuf _ (by omega)]
    · rfl
  simp only [hswap, hfile, Kernel.startOut]

/-- The entry is set. -/
theorem setEntry (h : Pending mem kblocks w e k₀ k)
    (hst : w.stage = .written s) (he : swapoutSetEntry k w.victim s = .ok k') :
    Pending mem kblocks { w with stage := .moved s } e k₀ k' := by
  have hfollows := h.follows
  simp only [Writeback.Follows, hst] at hfollows
  obtain ⟨bm, hbm, hcm, hswap, hpt⟩ := hfollows
  have hs : s < swapfileNpages := h.inv.inv.kernel.owned.slots.nbits ▸ hbm.1
  have hset := ptSetEntry_eq { k with coremap := k.coremap.setLock w.victim false } e 0 .inSwap
    (show s < 0xfff from hs.trans (by decide))
  rw [Nat.zero_mul] at hset
  rw [swapoutSetEntry] at he
  rw [Coremap.owner_setLock, h.owner, deref_some, ok_bind, hset] at he
  cases he
  refine ⟨h.inv, h.holds, h.live, h.inFrame, h.writable, h.request, ⟨h.shadow.ram, h.shadow.tlb,
    h.shadow.procs, h.shadow.curproc, ?_⟩, bm, hbm, ?_, hswap, ?_⟩
  · intro e' f hf
    dsimp only at hf ⊢
    by_cases hne : e' = e
    · subst hne
      rw [update_self] at hf
      exact absurd hf ((inSlot_inSwap _ s).not_inFrame f)
    · rw [update_of_ne hne] at hf ⊢
      exact h.shadow.pt hf
  · simp only [hcm, Kernel.finishOut, Kernel.startOut, Kernel.lockVictim]
  · simp only [hpt, Nat.zero_mod]

/-- The frame is handed over, and the fault it was for goes on : the swap-out might have happened
now as a whole. -/
theorem finish {tr : List Event}
    (h : Pending (flatMemory tr) kblocks w e k₀ k) (hst : w.stage = .moved s)
    (he : w.finish k = .ok k') : Sys.TlbInv ⟨k', kblocks⟩ ∧ k'.Holds (flatMemory tr) := by
  obtain ⟨-, ⟨L, hL⟩, hstatus⟩ := h.request
  have hproc : k.procs w.page.p = some w.page.proc := by
    rw [h.shadow.procs]
    exact hL.proc
  have hdisp : Conc.dispatch k w.page.p = asActivate { k with curproc := some w.page.p } := by
    rw [Conc.dispatch, hproc]
    rfl
  -- The thread gets the processor, which is as if its process had.
  have hal : Sys.Allowed ⟨k, kblocks⟩ (.switch (some w.page.p)) :=
    Option.isSome_iff_exists.mpr ⟨_, hproc⟩
  obtain ⟨-, hk, k₁, hk₁, h₁⟩ := h.user hal trivial rfl trivial trivial
  have h₁ : Pending (flatMemory tr) kblocks w e k₁ (Conc.dispatch k w.page.p) := by
    rw [hdisp]
    exact h₁
  have hflush : k₁.tlb = ⟨tlbInvalid, 0, true⟩ ∧ k₁.curproc = some w.page.p := by
    rw [← h₁.shadow.tlb, ← h₁.shadow.curproc, hdisp, asActivate]
    simp only [Option.bind_some, hproc]
    exact ⟨rfl, rfl⟩
  rw [Writeback.finish, tlbRemoveByPaddr_eq, ok_bind] at he
  generalize Conc.dispatch k w.page.p = k₂ at he h₁
  have hfollows := h₁.follows
  simp only [Writeback.Follows, hst] at hfollows
  obtain ⟨bm, hbm, hcm, hswap, hpt⟩ := hfollows
  have hgr : Granted k₁.Live k₁ 1 (some w.page.ptRow) w.victim _ :=
    .swapped rfl h₁.live h₁.inFrame h₁.writable hbm
  -- With the TLB entry removed, all steps of the swap-out have been made.
  have htake : ({ k₂ with tlb := k₂.tlb.remove (w.victim * pageSize) } : Kernel).take w.victim 1
      (some w.page.ptRow) = { ((k₁.startOut w.victim s bm).finishOut w.victim s e).take w.victim 1
        (some w.page.ptRow) with vmstats := k₂.vmstats } := by
    simp only [Kernel.take, hcm, hswap, hpt, h₁.shadow.ram, h₁.shadow.tlb, h₁.shadow.procs,
      h₁.shadow.curproc]
    rfl
  have hat : FaultAt k₁ L w.page w.va :=
    ⟨hflush.2, by rw [hk₁.procs]; exact hL.proc, hL.built, hL.segType, hL.ptRow⟩
  rw [← hk₁.pt] at hstatus
  have hspec := hgr.request_spec h₁.inv.inv.kernel.owned hat hstatus k₂.vmstats
  obtain ⟨⟨r, k₃⟩, hr, he⟩ := bind_eq_ok.mp he
  cases he
  rw [Writeback.request, Request.ptentry, htake] at hr
  have hpost := hspec.of_ok hr
  have hraised : FaultRaised k₁.tlb w.va .read := by
    intro i hi
    rw [hflush.1] at hi
    cases hi
  have hinv := h₁.inv
  obtain ⟨-, hprocs, hcur⟩ := hpost.owned hinv.inv.kernel.owned
  exact ⟨hinv.of_keeps (hinv.inv.of_keeps (hpost.keeps hinv.inv.kernel))
    (hpost.tlbOk hinv.inv.kernel hinv.tlbOk hraised) hprocs (Or.inl hcur),
    hpost.holds hinv.inv.kernel h₁.holds⟩

/-- A fault comes to a swap-out. -/
theorem begin {ty : FaultType} {va : ℕ} (hs : Sys.TlbInv ⟨k, kblocks⟩)
    (hm : k.Holds mem) (he : faultSwapout k ty va = .ok (some (w, k'))) :
    ∃ e k₀, Pending mem kblocks w e k₀ { k' with curproc := none } := by
  have hk := hs.inv.kernel
  obtain ⟨r, hr, hpost⟩ := faultLookup_spec (k := vmstatsHit k .tlbFault) hk.procs ty va
  rw [faultSwapout, hr, ok_bind] at he
  cases r with
  | inl r => cases he
  | inr fp =>
    obtain ⟨-, L, hat⟩ := hpost
    dsimp only at he
    split_ifs at he with hst
    swap
    · cases he
    obtain ⟨b, hfind, he⟩ := bind_eq_ok.mp he
    cases b with
    | some b => cases he
    | none =>
      obtain ⟨⟨f, writing, k₁⟩, hbegin, he⟩ := bind_eq_ok.mp he
      cases writing with
      | false => cases he
      | true =>
        cases he
        have howned : (vmstatsHit k .tlbFault).Owned (.quiet (vmstatsHit k .tlbFault).Live) :=
          ⟨hk.owned.frames, hk.owned.slots⟩
        obtain ⟨e, hv, hmem, rfl⟩ :=
          (coremapSwapoutBegin_spec howned (victimless_quiet _ _) hfind).of_ok hbegin
        refine ⟨e, { vmstatsHit k .tlbFault with curproc := none }, ?_, hm.congr rfl rfl rfl rfl,
          hv.live, hv.inFrame, hmem,
          ⟨rfl, ⟨L, rfl, hat.proc, hat.built, hat.segType, hat.ptRow⟩, ?_⟩,
          ⟨rfl, rfl, rfl, rfl, fun _ => rfl⟩, rfl, rfl, rfl⟩
        · exact hs.of_keeps (hs.inv.of_keeps ((Kernel.Keeps.refl hk).congr rfl rfl rfl rfl rfl))
            (fun _ _ _ hc => by cases hc) rfl (Or.inr rfl)
        · rw [pt_vmstatsHit] at hst
          rcases hst with hst | hst <;> simp [hst]

end Pending

/-! ## Runs -/

namespace Overlap

variable {s s' : Overlap} {tr : List (Option Event)} {ev : Option Event}

/-- A step of the swap-out. -/
theorem advance_inv {w : Writeback} {w' : Option Writeback} {k' : Kernel} (hout : s.out = some w)
    (hs : s.Inv tr) (he : w.advance s.sys.kernel = .ok (w', k')) :
    Inv (none :: tr) ⟨{ s.sys with kernel := k' }, w'⟩ := by
  unfold Inv at hs ⊢
  rw [hout] at hs
  obtain ⟨e, k₀, hp⟩ := hs
  unfold Writeback.advance at he
  cases hst : w.stage with
  | locked =>
    rw [hst] at he
    obtain ⟨⟨i, iobuf, k₁⟩, hcopy, he⟩ := bind_eq_ok.mp he
    cases he
    exact ⟨e, k₀, hp.copy hst hcopy⟩
  | copied i iobuf =>
    rw [hst] at he
    obtain ⟨k₁, hwrite, he⟩ := bind_eq_ok.mp he
    cases he
    exact ⟨e, k₀, hp.write hst hwrite⟩
  | written i =>
    rw [hst] at he
    obtain ⟨k₁, hset, he⟩ := bind_eq_ok.mp he
    cases he
    exact ⟨e, k₀, hp.setEntry hst hset⟩
  | moved i =>
    rw [hst] at he
    obtain ⟨k₁, hfin, he⟩ := bind_eq_ok.mp he
    cases he
    exact hp.finish hst hfin

theorem step_inv (hs : s.Inv tr) (h : guarded Disciplined Step s ev s') : s'.Inv (ev :: tr) := by
  obtain ⟨⟨op, hal, he⟩, hd⟩ := h
  -- An operation of the sequential system, with nothing under way.
  have hseq : ∀ {op : SysOp} {ev : Event} {sys : Sys}, s.out = none → s.sys.Allowed op →
      s.sys.exec op = .ok (ev, sys) → s.sys.Disciplined ev →
      Inv (some ev :: tr) { s with sys := sys } := by
    intro op ev sys hout hal he hd
    unfold Inv at hs ⊢
    rw [hout] at hs
    rw [hout, List.reduceOption_cons_of_some]
    have hstep : s.sys.Step ev sys := ⟨op, hal, he⟩
    exact ⟨Sys.step_tlbInv hs.1 hstep hd, Sys.step_flat hs.1 hs.2 hstep hd⟩
  cases op with
  | user op =>
    obtain ⟨⟨ev', sys⟩, hexec, heq⟩ := bind_eq_ok.mp he
    cases heq
    cases hout : s.out with
    | none =>
      rw [hout] at hseq
      exact hseq rfl hal.1 hexec hd.1
    | some w =>
      obtain ⟨hop, -⟩ := hal.2 w hout
      unfold Inv at hs ⊢
      rw [hout] at hs
      obtain ⟨e, k₀, hp⟩ := hs
      obtain ⟨hkb, -, k₀', -, hp'⟩ := hp.user hal.1 hop hexec hd.1 (hd.2 w hout)
      rw [← hkb] at hp'
      exact ⟨e, k₀', hp'⟩
  | fault ty va =>
    have hout : s.out = none := Option.isNone_iff_eq_none.mp hal.1
    obtain ⟨r, hr, he⟩ := bind_eq_ok.mp he
    cases r with
    | none =>
      obtain ⟨⟨ev', sys⟩, hexec, heq⟩ := bind_eq_ok.mp he
      cases heq
      have hallow : s.sys.Allowed (.fault ty va) := trivial
      exact hseq hout hallow hexec hd.1
    | some r =>
      cases he
      unfold Inv at hs ⊢
      rw [hout] at hs
      exact Pending.begin hs.1 hs.2 hr
  | advance =>
    obtain ⟨w, hout⟩ := Option.isSome_iff_exists.mp hal
    rw [exec, hout] at he
    obtain ⟨⟨w', k'⟩, hadv, he⟩ := bind_eq_ok.mp he
    cases he
    exact advance_inv hout hs hadv

theorem run_inv {ramsize firstfree : ℕ} {s₀ : Sys} (hb : Sys.Boot ramsize firstfree s₀)
    (hr : Run (guarded Disciplined Step) (ofSys s₀) tr s) : s.Inv tr :=
  hr.trace_induct (I := fun tr s => s.Inv tr)
    ⟨hb.tlbInv, Sys.run_flat hb .start⟩ fun _ _ _ _ _ hi hs => step_inv hi hs

end Overlap

/-- In a run in which no page is stored into between its copy to the buffer of the device and the
end of its swap-out, a load of a valid address by the running process returns the byte last
stored there, or that of the initial image : after the page has been fetched from swap, and also
while it is on its way there. -/
theorem loads_current_of_run {ramsize firstfree : ℕ} {s₀ : Sys} {s : Overlap}
    {tr : List (Option Event)} (hb : Sys.Boot ramsize firstfree s₀)
    (hr : Run (guarded Overlap.Disciplined Overlap.Step) (.ofSys s₀) tr s) {p va : ℕ}
    (hp : s.sys.kernel.curproc = some p) (hva : s.sys.kernel.Valid p va)
    (hal : s.Allowed (.user (.load va))) :
    Meets Halt.Resource (fun r => r.1 = some (.loaded p va (flatMemory tr.reduceOption p va)))
      (s.exec (.user (.load va))) := by
  have hinv := Overlap.run_inv hb hr
  unfold Overlap.Inv at hinv
  have hload : Meets Halt.Resource (fun r => r.1 = .loaded p va (flatMemory tr.reduceOption p va))
      (s.sys.exec (.load va)) := by
    cases hout : s.out with
    | none =>
      rw [hout] at hinv
      exact hinv.1.load_spec hinv.2 hp hva
    | some w =>
      rw [hout] at hinv
      obtain ⟨e, k₀, hpend⟩ := hinv
      have hva₀ : k₀.Valid p va := by
        unfold Kernel.Valid
        rw [← hpend.shadow.procs]
        exact hva
      have hload₀ := hpend.inv.load_spec hpend.holds (hpend.shadow.curproc.symm.trans hp) hva₀
      refine ((Sys.exec_agree hpend.shadow (hal.2 w hout).1).meets hload₀).mono ?_
      rintro r ⟨r₀, hr₀, hin⟩
      rw [← hin.event, hr₀]
  refine hload.bind ?_
  rintro ⟨ev, sys⟩ rfl
  exact rfl

/-- The page has not been copied. -/
def Writeback.isLocked (w : Writeback) : Bool :=
  match w.stage with
  | .locked => true
  | _ => false

/-- Every program of the small machine is `smallFile`. -/
def OverlapOp.small : OverlapOp → OverlapOp
  | .user (.build p _) => .user (.build p Sys.smallFile)
  | op => op

namespace Overlap

variable {s s' : Overlap} {op : OverlapOp} {tr : List (Option Event)} {ops : List OverlapOp}

/-- A step of the small machine. A store during a swap-out is made only before the copy. -/
def nextSmall (s : Overlap) (op : OverlapOp) : Option (Option Event × Overlap) :=
  (s.next op.small).filter fun r =>
    match r.1 with
    | some (.stored _ _ _) => s.out.all Writeback.isLocked
    | some (.faulted _ _ _) => false
    | _ => true

theorem exec_of_next {ev : Option Event}
    (h : s.next op = some (ev, s')) : s.Allowed op ∧ s.exec op = .ok (ev, s') :=
  ok_of_guard h

/-- Only `build` builds a process. -/
theorem built_of_exec {p : ℕ} {v : Vnode}
    (h : s.exec op = .ok (some (.built p v), s')) : op = .user (.build p v) := by
  have hsys : ∀ {op : SysOp} {sys : Sys}, s.sys.exec op = .ok (.built p v, sys) →
      op = .build p v := by
    intro op sys h
    cases op with
    | build q v' =>
      obtain ⟨⟨e, k⟩, -, h⟩ := bind_eq_ok.mp h
      cases e <;> cases h
      rfl
    | switch q => cases h
    | destroy q | freeKpages a =>
      obtain ⟨k, -, h⟩ := bind_eq_ok.mp h
      cases h
    | allocKpages n =>
      obtain ⟨⟨a, k⟩, -, h⟩ := bind_eq_ok.mp h
      cases h
    | fault ty va | load va | store va b =>
      obtain ⟨⟨r, k⟩, -, h⟩ := bind_eq_ok.mp h
      cases r <;> cases h
  cases op with
  | user op =>
    obtain ⟨⟨ev, sys⟩, he, h⟩ := bind_eq_ok.mp h
    cases h
    rw [hsys he]
  | fault ty va =>
    obtain ⟨r, -, h⟩ := bind_eq_ok.mp h
    cases r with
    | some r => cases h
    | none =>
      obtain ⟨⟨ev, sys⟩, he, h⟩ := bind_eq_ok.mp h
      cases h
      cases hsys he
  | advance =>
    unfold exec at h
    cases hout : s.out with
    | none =>
      rw [hout] at h
      cases h
    | some w =>
      rw [hout] at h
      obtain ⟨⟨w', k'⟩, -, h⟩ := bind_eq_ok.mp h
      cases h

theorem guarded_of_nextSmall {ev : Option Event}
    (h : s.nextSmall op = some (ev, s')) : guarded Disciplined Step s ev s' := by
  obtain ⟨hnext, hcheck⟩ := Option.filter_eq_some_iff.mp h
  obtain ⟨hal, he⟩ := exec_of_next hnext
  refine ⟨⟨_, hal, he⟩, ?_⟩
  cases ev with
  | none => trivial
  | some ev =>
    have hspares : ∀ w ∈ s.out, w.Spares s.sys.kernel ev := by
      intro w hw
      cases ev with
      | stored p va b =>
        rw [Option.mem_def.mp hw] at hcheck
        refine Or.inl ?_
        cases hst : w.stage with
        | locked => rfl
        | _ => simp [Writeback.isLocked, hst] at hcheck
      | _ => trivial
    refine ⟨?_, hspares⟩
    cases ev with
    | built p v =>
      cases op with
      | user op =>
        cases op with
        | build q v' =>
          cases built_of_exec he
          exact Sys.smallFile_pagesDisjoint
        | _ => cases built_of_exec he
      | fault ty va => cases built_of_exec he
      | advance => cases built_of_exec he
    | faulted ty va r => simp at hcheck
    | _ => trivial

end Overlap

/-- Process 2 faults and takes the frame of the data page of process 1, which stores into the
page before it is copied and reads it while it is written. -/
theorem loads_current_of_run_small : ∃ tr s,
    Run (guarded Overlap.Disciplined Overlap.Step) (.ofSys (.small 3)) tr s ∧
      (s.sys.kernel.pt ⟨1, 1⟩).ptStatus = .inSwap ∧ s.sys.kernel.Valid 1 0x10000001 ∧
      Meets Halt.Resource (fun r => r.1 = some (.loaded 1 0x10000001 8))
        (s.exec (.user (.load 0x10000001))) := by
  obtain ⟨tr, s, hrun, hcur, hst, hal, hflat, hseg⟩ := Run.exists_of_execute Overlap.nextSmall
    Overlap.guarded_of_nextSmall (.ofSys (.small 3)) [.user (.build 1 Sys.smallFile),
      .user (.store 0x10000001 7), .user (.build 2 Sys.smallFile), .fault .write 0x10000001,
      .user (.switch (some 1)), .user (.store 0x10000001 8), .advance, .user (.load 0x10000001),
      .advance, .advance, .advance, .user (.switch (some 1))]
    (fun tr s => s.sys.kernel.curproc = some 1 ∧ (s.sys.kernel.pt ⟨1, 1⟩).ptStatus = .inSwap ∧
      s.Allowed (.user (.load 0x10000001)) ∧ flatMemory tr.reduceOption 1 0x10000001 = 8 ∧
      ((s.sys.kernel.procs 1).map fun pr =>
        (asGetSegmentType pr.pAddrspace 0x10000001).toOption) = some (some (some .data)))
    (by decide +kernel)
  have hvalid : s.sys.kernel.Valid 1 0x10000001 := Kernel.valid_of_map hseg
  have hload := loads_current_of_run (Sys.small_boot (by decide) (by decide)) hrun hcur hvalid hal
  rw [hflat] at hload
  exact ⟨tr, s, hrun, hst, hvalid, hload⟩

/-- The event is the load of byte `b` by process `p` at `va`. -/
def Event.isLoad (p va : ℕ) (b : UInt8) : Option Event → Bool
  | some (.loaded p' va' b') => p' = p ∧ va' = va ∧ b' = b
  | _ => false

/-- Process 1 stores 7 into its data page, and 9 after the page has been copied to the buffer of
the device. The swap-out ends, and when the page has been fetched again it holds 7. -/
theorem store_lost_small : ∃ tr s, Run Overlap.Step (.ofSys (.small 3)) tr s ∧
    (s.sys.kernel.pt ⟨1, 1⟩).ptStatus = .inSwap ∧
    flatMemory tr.reduceOption 1 0x10000001 = 9 ∧
    ∃ s', s.exec (.user (.load 0x10000001)) = .ok (some (.loaded 1 0x10000001 7), s') := by
  obtain ⟨tr, s, hrun, hst, hflat, hload⟩ := Run.exists_of_execute Overlap.next
    (fun h => show Overlap.Step _ _ _ from ⟨_, Overlap.exec_of_next h⟩) (.ofSys (.small 3))
    [.user (.build 1 Sys.smallFile), .user (.store 0x10000001 7), .user (.build 2 Sys.smallFile),
      .fault .write 0x10000001, .advance, .user (.switch (some 1)), .user (.store 0x10000001 9),
      .advance, .advance, .advance, .user (.switch (some 1))]
    (fun tr s => (s.sys.kernel.pt ⟨1, 1⟩).ptStatus = .inSwap ∧
      flatMemory tr.reduceOption 1 0x10000001 = 9 ∧
      ((s.exec (.user (.load 0x10000001))).toOption.map fun r =>
        Event.isLoad 1 0x10000001 7 r.1) = some true) (by decide +kernel)
  refine ⟨tr, s, hrun, hst, hflat, ?_⟩
  cases hexec : s.exec (.user (.load 0x10000001)) with
  | error e =>
    rw [hexec] at hload
    cases hload
  | ok r =>
    rw [hexec] at hload
    obtain ⟨ev, s'⟩ := r
    have hev : Event.isLoad 1 0x10000001 7 ev = true := Option.some.inj hload
    match ev, hev with
    | some (.loaded p va b), hev =>
      obtain ⟨rfl, rfl, rfl⟩ := of_decide_eq_true hev
      exact ⟨s', rfl⟩

end OS161
