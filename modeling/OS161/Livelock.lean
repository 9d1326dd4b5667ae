import OS161.DemandLoad
import OS161.FlatMemory

/-!
# A restarted instruction gets its pages

An instruction at `T` that accesses `D` is started again after each fault, and faults on the
first of the two pages that has no TLB entry. Each fault may take the frame, or overwrite the
TLB slot, of the page that the one before brought in. `restart` is this loop.

It ends after three faults (`restart_settles`). The slot written last is not overwritten by
the next fault, and the frame the victim search picked last is not picked again while there is
another one (`coremapGetVictim_cases`). So a fault on `Y` that takes away the page of the fault
on `X` before it leaves `victim_index` at its own frame, and the next fault on `X` spares it.
-/

namespace OS161

open Function

variable {cm : Coremap} {f va p : ℕ} {k : Kernel} {pr : Proc}

/-! ## Frames to go round -/

/-- A frame that is free, or holds a user page that is not locked. -/
def Coremap.Available (cm : Coremap) (f : ℕ) : Prop :=
  f < cm.nRamFrames ∧ (cm.used f = false ∨ (cm.owner f).isSome ∧ cm.locked f = false)

instance (cm : Coremap) (f : ℕ) : Decidable (cm.Available f) :=
  inferInstanceAs (Decidable (_ ∧ _))

/-- At least two frames are available. -/
def Coremap.TwoAvailable (cm : Coremap) : Prop :=
  ∃ f f', f ≠ f' ∧ cm.Available f ∧ cm.Available f'

theorem Coremap.Available.swappable (h : cm.Available f)
    (hfull : ∀ f < cm.nRamFrames, cm.used f = true) : cm.Swappable f := by
  obtain ⟨hlt, hu | hu⟩ := h
  · rw [hfull f hlt] at hu
    cases hu
  · exact ⟨hlt, hu⟩

section Chosen

variable {k : Kernel} {g : Ghost} {live : PtPtr → Prop}

/-- The frame that is chosen when no frame is free. -/
theorem chosen_iff (h : k.Owned g) : k.Chosen f ↔
    (∀ f < k.coremap.nRamFrames, k.coremap.used f = true) ∧ FirstAfter k.coremap.nRamFrames
      (k.coremap.victimIndex % k.coremap.nRamFrames) k.coremap.eligible f := by
  constructor
  · rintro ⟨hfind, cm, hv⟩
    exact ⟨used_of_find h.frames.wf hfind, (coremapGetVictim_ok hv).1⟩
  · rintro ⟨hfull, hf⟩
    refine ⟨?_, ?_⟩
    · rcases coremapFindFreeframes_spec h.frames.wf Nat.one_pos with ⟨b, -, hrun, -⟩ | ⟨hb, -⟩
      · have hfree := hrun.2 b le_rfl (Nat.lt_succ_self b)
        rw [hfull b (by have := hrun.1; omega)] at hfree
        cases hfree
      · exact hb
    · rcases coremapGetVictim_spec (h.frames.swappable hfull) with ⟨g, hg, hv⟩ | ⟨hnone, -⟩
      · obtain rfl := hf.unique (Nat.mod_lt _ (Nat.zero_lt_of_lt hf.lt)) hg
        exact ⟨_, hv⟩
      · exact absurd (Coremap.swappable_of_first hf) (hnone f)

/-- The victim is another one than the last. -/
theorem Kernel.Chosen.ne_victimIndex {f : ℕ} (hc : k.Chosen f) (h : k.Owned g)
    (htwo : k.coremap.TwoAvailable) : f ≠ k.coremap.victimIndex := by
  have hfull := used_of_find h.frames.wf hc.1
  obtain ⟨-, cm, hv⟩ := hc
  obtain ⟨hfirst, -⟩ := coremapGetVictim_ok hv
  rintro rfl
  rw [Nat.mod_eq_of_lt hfirst.lt] at hfirst
  -- Another frame comes before the one the search starts from.
  obtain ⟨f₁, f₂, hne, h₁, h₂⟩ := htwo
  have hall : ∀ f', k.coremap.Available f' → f' = k.coremap.victimIndex := fun f' hf' =>
    hfirst.eq_of_self hf'.1 (decide_eq_true (hf'.swappable hfull))
  exact hne ((hall f₁ h₁).trans (hall f₂ h₂).symm)

/-- A page that is brought in takes its frame from those that are available, and leaves them
so. -/
theorem Granted.twoAvailable {k' : Kernel} {e : PtPtr} {b : ℕ}
    (hgr : Granted live k 1 (some e) b k') (hk : k.Owned (.quiet live))
    (htwo : k.coremap.TwoAvailable) : k'.coremap.TwoAvailable := by
  have hkeep : ∀ f, k.coremap.Available f → k'.coremap.Available f := by
    rintro f ⟨hlt, hor⟩
    have hlt' : f < k'.coremap.nRamFrames := hgr.nRamFrames ▸ hlt
    have hunlocked : k'.coremap.locked f = false :=
      (hgr.owned hk Nat.one_pos fun _ => rfl).frames.locked f hlt'
    refine ⟨hlt', ?_⟩
    rw [hgr.used, hgr.owner, hunlocked]
    split_ifs
    · exact Or.inr ⟨rfl, rfl⟩
    · exact hor.imp id fun h => ⟨h.1, rfl⟩
  obtain ⟨f, f', hne, hf, hf'⟩ := htwo
  exact ⟨f, f', hne, hkeep f hf, hkeep f' hf'⟩

theorem Granted.ioError {k' : Kernel} {n b : ℕ} {e : Option PtPtr}
    (hgr : Granted live k n e b k') : k'.swap.ioError = k.swap.ioError := by
  cases hgr <;> rfl

end Chosen

/-! ## Why a fault may stop -/

/-- The file of a process can be read as far as its segments go. -/
def Proc.Readable (pr : Proc) : Prop :=
  (∀ o n, pr.pVnode.ioError o n = none) ∧ ∀ L, pr.pAddrspace.Has L → ∀ ty,
    (L.seg ty).segElfOffset + (L.seg ty).segElfSize ≤ pr.pVnode.contents.length

/-- The panics of a fault of process `pr` that come from a device : the swap file has an
error, or the program file cannot be read. -/
inductive DeviceFailure (ioError : ℕ → Bool) (pr : Proc) : Halt → Prop
  | out {i : ℕ} : ioError i = true → DeviceFailure ioError pr (.panic "Error swapping out\n")
  | fetch {i : ℕ} : ioError i = true → DeviceFailure ioError pr (.panic "Error swapping in\n")
  | load : ¬pr.Readable → DeviceFailure ioError pr (.panic "Error loading page\n")
  | short : ¬pr.Readable →
      DeviceFailure ioError pr (.panic "ELF: short read on segment - file truncated?")

theorem DeviceFailure.mem {ioError : ℕ → Bool} {e : Halt} (h : DeviceFailure ioError pr e) :
    e ∈ [.panic "Error swapping out\n", .panic "Error swapping in\n",
      .panic "Error loading page\n", .panic "ELF: short read on segment - file truncated?"] := by
  cases h <;> simp

/-- The panic of `swap_out`. -/
def outOfSwap : Halt :=
  .panic "Out of swap space\n"

/-- The panics of a fault of process `pr` : a device fails, or swap space runs out. -/
def PagingFailure (ioError : ℕ → Bool) (pr : Proc) (e : Halt) : Prop :=
  DeviceFailure ioError pr e ∨ e = outOfSwap

/-- There is a frame for a page : one is free, or the next victim can leave its own, being
read-only or having a slot to go to. -/
def Kernel.HasRoom (k : Kernel) : Prop :=
  (∃ f < k.coremap.nRamFrames, k.coremap.used f = false) ∨ ∃ f e,
    FirstAfter k.coremap.nRamFrames (k.coremap.victimIndex % k.coremap.nRamFrames)
      k.coremap.eligible f ∧ k.coremap.owner f = some e ∧
    ((k.pt e).ptStatus = .inMemoryRdonly ∨ ∃ i < swapfileNpages, ¬k.swap.swapmap.Marked i)

section Failures

variable {k : Kernel} {L : Layout} {fp : FaultPage} {va f : ℕ} {pr : Proc} {live : PtPtr → Prop}

/-- `swap_out` finds no slot exactly if every slot is marked. -/
theorem swapOut_cases (hwf : k.swap.swapmap.WF) (hn : k.swap.swapmap.nbits = swapfileNpages)
    (f : ℕ) (pr : Proc) :
    (∃ i < swapfileNpages, ¬k.swap.swapmap.Marked i) ∧
      Meets (DeviceFailure k.swap.ioError pr) (fun _ => True) (swapOut k (f * pageSize)) ∨
    (∀ i < swapfileNpages, k.swap.swapmap.Marked i) ∧
      swapOut k (f * pageSize) = .error outOfSwap := by
  obtain ⟨_ | ⟨s, bm⟩, hpost, heq⟩ := swapOut_eq hwf f
  · exact Or.inr ⟨fun i hi => hpost i (hn ▸ hi), heq⟩
  · refine Or.inl ⟨⟨s, hn ▸ hpost.1, hpost.2.1⟩, ?_⟩
    rw [heq]
    dsimp only
    split_ifs with hio
    · exact .out hio
    · trivial

/-- A request for a frame : with room, only a device stops it. Otherwise every slot is marked
and swap space has run out, or there is no victim. -/
theorem coremapGetBegin_cases (h : k.Owned (.quiet live)) (e : Option PtPtr) (pr : Proc) :
    k.HasRoom ∧ Meets (DeviceFailure k.swap.ioError pr) (fun _ => True) (coremapGetBegin k 1 e) ∨
    ¬k.HasRoom ∧ ((∀ i < swapfileNpages, k.swap.swapmap.Marked i) ∧
        coremapGetBegin k 1 e = .error outOfSwap ∨
      (∀ f, ¬k.coremap.Swappable f) ∧
        coremapGetBegin k 1 e = .error (.panic "Cannot find swappable victim")) := by
  rw [coremapGetBegin]
  rcases coremapFindFreeframes_spec h.frames.wf Nat.one_pos with ⟨b, hb, hrun, -⟩ | ⟨hb, -⟩
  · rw [hb]
    exact Or.inl ⟨Or.inl ⟨b, hrun.1, hrun.2 b le_rfl (Nat.lt_succ_self b)⟩, trivial⟩
  rw [hb, ok_bind]
  have hfull := used_of_find h.frames.wf hb
  have hfree : ¬∃ f < k.coremap.nRamFrames, k.coremap.used f = false := by
    rintro ⟨f, hf, hu⟩
    rw [hfull f hf] at hu
    cases hu
  rcases coremapGetVictim_spec (h.frames.swappable hfull) with ⟨f, -, hv⟩ | ⟨hnone, cm, hv⟩
  case inr =>
    refine Or.inr ⟨?_, Or.inr ⟨hnone, ?_⟩⟩
    · rintro (hroom | ⟨f, e, hf, -⟩)
      · exact hfree hroom
      · exact hnone f (Coremap.swappable_of_first hf)
    · rw [coremapSwapoutBegin, if_neg (lt_irrefl 1), hv]
      rfl
  obtain ⟨⟨f', writing, k'⟩, hr, hpost⟩ :=
    coremapSwapoutBegin_of_chosen h (victimless_quiet live k) ⟨hb, _, hv⟩
  rw [hr, ok_bind]
  cases writing with
  | false =>
    obtain ⟨e₁, ⟨hchosen, hl, hin, -⟩, hro, -⟩ := hpost
    have howner := (h.frames.resident e₁ f' hl hin).2.2.2
    exact Or.inl ⟨Or.inr ⟨f', e₁, ((chosen_iff h).mp hchosen).2, howner, Or.inl hro⟩, trivial⟩
  | true =>
    obtain ⟨e₁, ⟨hchosen, hl, hin, -⟩, hst, rfl⟩ := hpost
    have hfirst := ((chosen_iff h).mp hchosen).2
    have howner := (h.frames.resident e₁ f' hl hin).2.2.2
    dsimp only
    rcases swapOut_cases (k := k.lockVictim f') h.slots.wf h.slots.nbits f' pr with
      ⟨hslot, hmeets⟩ | ⟨hall, hout⟩
    · exact Or.inl ⟨Or.inr ⟨f', e₁, hfirst, howner, Or.inr hslot⟩,
        hmeets.bind fun _ _ => trivial⟩
    · refine Or.inr ⟨?_, Or.inl ⟨hall, ?_⟩⟩
      · rintro (hroom | ⟨f, e, hf, ho, hro | ⟨i, hi, hm⟩⟩)
        · exact hfree hroom
        · -- The victim is the page that has to be written.
          obtain rfl := hfirst.unique (Nat.mod_lt _ (Nat.zero_lt_of_lt hf.lt)) hf
          obtain rfl := Option.some.inj (howner.symm.trans ho)
          rw [hst] at hro
          cases hro
        · exact hm (hall i hi)
      · rw [if_pos rfl, hout]
        rfl

/-- With two frames to go round there is a victim. -/
theorem Coremap.TwoAvailable.swappable (htwo : k.coremap.TwoAvailable) (hroom : ¬k.HasRoom) :
    ∃ f, k.coremap.Swappable f := by
  obtain ⟨f, -, -, hf, -⟩ := htwo
  refine ⟨f, hf.swappable fun b hb => ?_⟩
  by_contra hu
  exact hroom (Or.inl ⟨b, hb, Bool.eq_false_of_not_eq_true hu⟩)

theorem coremapGetBegin_fails (h : k.Owned (.quiet live))
    (htwo : k.coremap.TwoAvailable) (e : Option PtPtr) :
    Meets (PagingFailure k.swap.ioError pr) (fun _ => True) (coremapGetBegin k 1 e) := by
  rcases coremapGetBegin_cases h e pr with ⟨-, hmeets⟩ | ⟨hroom, ⟨-, hout⟩ | ⟨hnone, -⟩⟩
  · exact hmeets.weaken fun _ hd => Or.inl hd
  · rw [hout]
    exact Or.inr rfl
  · exact absurd hnone (not_forall_not.mpr (htwo.swappable hroom))

/-- A page gets its frame if the first half of `coremap_getppages` comes to its end. -/
theorem getppages_of_begin {r : GetState × Kernel}
    (h : k.Owned (.quiet live)) {e : PtPtr} (hr : coremapGetBegin k 1 (some e) = .ok r) :
    ∃ b k', getppages k 1 (some e) = .ok (b * pageSize, k') ∧ Granted live k 1 (some e) b k' ∧
      TlbKept k k' b := by
  have hspec := coremapGetBegin_spec h Nat.one_pos (victimless_quiet live k) (some e)
  obtain ⟨b, k', hget, hgr, hkept⟩ := coremapGetppages_of_begin h hr (hspec.of_ok hr)
  have hb : b ≠ 0 := by
    rintro rfl
    rcases hgr.victim with hrun | ⟨-, e', hl, hf⟩
    · have hu := hrun.2 0 le_rfl Nat.one_pos
      rw [h.frames.zero.2 (by have := hrun.1; omega)] at hu
      cases hu
    · exact h.frames.resident_ne_zero hl hf rfl
  refine ⟨b, k', ?_, hgr, hkept⟩
  rw [getppages, hget, ok_bind]
  dsimp only
  rw [checkPpages, if_neg (Nat.mul_ne_zero hb pageSize_pos.ne'), ok_bind]

theorem getppages_of_begin_error {e : PtPtr} {err : Halt}
    (hr : coremapGetBegin k 1 (some e) = .error err) : getppages k 1 (some e) = .error err := by
  rw [getppages, coremapGetppages, hr, error_bind, error_bind]

/-- A page gets its frame, unless the request for it stops. -/
theorem getppages_meets {ok : Halt → Prop} (h : k.Owned (.quiet live)) {e : PtPtr}
    (hbegin : Meets ok (fun _ => True) (coremapGetBegin k 1 (some e))) :
    Meets ok (fun r => ∃ b, r.1 = b * pageSize ∧ Granted live k 1 (some e) b r.2 ∧
      TlbKept k r.2 b) (getppages k 1 (some e)) := by
  cases hr : coremapGetBegin k 1 (some e) with
  | error err =>
    rw [getppages_of_begin_error hr]
    exact hbegin.of_error hr
  | ok r =>
    obtain ⟨b, k', hget, hgr, hkept⟩ := getppages_of_begin h hr
    rw [hget]
    exact ⟨b, rfl, hgr, hkept⟩

/-- The page is read from the file. -/
theorem faultLoadEnd_meets {ioError : ℕ → Bool} (k : Kernel) (hL : fp.proc.Built L)
    (hc : (L.seg fp.segType).Contains va) :
    Meets (DeviceFailure ioError fp.proc)
      (fun k' => k' = { k with ram := LoadPlan.loadRam fp.proc.pVnode k.ram (fp.plan L va f) })
      (faultLoadEnd k fp (fp.plan L va f)) := by
  by_cases hr : fp.proc.Readable
  · rw [faultLoadEnd_eq k hL.wf hc hr.1 (hr.2 L hL.1 _)]
    exact rfl
  · cases fp.plan L va f with
    | none => exact rfl
    | some plan =>
      rw [faultLoadEnd, loadPage]
      cases vopRead fp.proc.pVnode plan.offset plan.size with
      | error e => exact .load hr
      | ok moved =>
        dsimp only
        split_ifs
        · exact .short hr
        · exact rfl

end Failures

/-! ## One fault -/

/-- The kernel serves process `pr`, with two frames to go round. -/
structure Serves (ioError : ℕ → Bool) (p : ℕ) (pr : Proc) (k : Kernel) : Prop where
  inv : k.Inv
  curproc : k.curproc = some p
  proc : k.procs p = some pr
  swap : k.swap.ioError = ioError
  two : k.coremap.TwoAvailable

/-- What the switch of `vm_fault` leaves of the TLB and of the frames. -/
structure Brought (k k' : Kernel) (f : ℕ) : Prop where
  tlb : TlbKept k k' f
  two : k.coremap.TwoAvailable → k'.coremap.TwoAvailable
  swap : k'.swap.ioError = k.swap.ioError

/-- The page is brought in, unless the request for a frame stops or a device fails. -/
theorem faultResolve_meets {ok : Halt → Prop} {L : Layout} {fp : FaultPage}
    (hk : k.Owned (.quiet k.Live)) (h : FaultAt k L fp va)
    (hbegin : Meets ok (fun _ => True) (coremapGetBegin k 1 (some fp.ptRow)))
    (hok : ∀ e, DeviceFailure k.swap.ioError fp.proc e → ok e) :
    Meets ok
      (fun k' => Brought k k' (k'.pt fp.ptRow).ptFrameIndex) (faultResolve k fp va) := by
  unfold faultResolve
  cases hst : (k.pt fp.ptRow).ptStatus with
  | inMemory | inMemoryRdonly => exact ⟨Or.inl rfl, id, rfl⟩
  | notLoaded =>
    refine (getppages_meets hk hbegin).bind ?_
    rintro ⟨paddr, k'⟩ ⟨f, rfl, hgr, hkept⟩
    obtain ⟨stats, hbegin⟩ := faultLoadBegin_eq k' h (hgr.lt_frameIndex hk)
    dsimp only
    rw [hbegin, ok_bind]
    refine ((faultLoadEnd_meets _ h.built
      (Layout.contains_of_segType h.segType)).weaken hok).mono ?_
    rintro k'' rfl
    refine ⟨?_, hgr.twoAvailable hk, hgr.ioError⟩
    simp only [update_self]
    exact hkept
  | inSwap =>
    refine (getppages_meets hk hbegin).bind ?_
    rintro ⟨paddr, k'⟩ ⟨f, rfl, hgr, hkept⟩
    have hslot : (k.pt fp.ptRow).InSlot (k.pt fp.ptRow).ptSwapIndex := ⟨hst, rfl⟩
    have hpt := hgr.pt_eq hslot.not_inFrame
    have hk' := hgr.owned hk Nat.one_pos fun _ => rfl
    obtain ⟨hs, hm⟩ := hk'.slots.marked_of_inSlot h.live (by rw [hpt]; exact hslot)
    dsimp only
    rw [hpt, swapInBegin_eq f hs hm, ok_bind]
    refine (faultSwapEnd_spec (vmstatsHit (vmstatsHit k' .pageFaultDisk) .pageFaultSwap)
      (hgr.lt_frameIndex hk) hs hk'.slots.wf hk'.slots.nbits hm
      fun hio => hok _ (.fetch (hgr.ioError ▸ hio))).mono ?_
    rintro k'' ⟨bm, -, -, -, rfl⟩
    refine ⟨?_, hgr.twoAvailable hk, hgr.ioError⟩
    simp only [update_self]
    exact hkept

/-- The fault of an access that finds no TLB entry. -/
def missFault (write : Bool) : FaultType :=
  if write then .write else .read

/-- The TLB after a fault on `va` : the page of `va` is in frame `f`, and its entry is written
after what the switch left. -/
def Inserted (k : Kernel) (va f : ℕ) (k' : Kernel) : Prop :=
  ∃ k₁ x, x.valid = true ∧ x.ehi = pageFrame va ∧ x.paddr = f * pageSize ∧ TlbKept k k₁ f ∧
    k'.tlb = k₁.tlb.insert x ∧ k'.coremap.victimIndex = k₁.coremap.victimIndex

/-- The page of a valid address of the running process is found. -/
theorem faultLookup_valid {ty : SegType} (hp : k.ProcsOk)
    (hc : k.curproc = some p) (hpr : k.procs p = some pr)
    (hva : asGetSegmentType pr.pAddrspace va = .ok (some ty)) (write : Bool) :
    ∃ L fp, faultLookup k (missFault write) va = .ok (.inr fp) ∧ fp.proc = pr ∧
      FaultAt k L fp va := by
  have hty : missFault write ≠ .readonly ∧ missFault write ≠ .other := by
    cases write <;> exact ⟨nofun, nofun⟩
  obtain ⟨r, hr, hpost⟩ := faultLookup_spec hp (missFault write) va
  match r, hpost with
  | .inl (.ret err), ⟨_, hfail⟩ =>
    rcases hfail with hother | ⟨-, hnone⟩
    · exact absurd hother hty.2
    · rw [hc, Option.bind_some, hpr] at hnone
      cases hnone
  | .inl (.exit status), ⟨_, hfail⟩ =>
    rcases hfail with hro | ⟨-, p', pr', L, hc', hpr', hL, hnone⟩
    · exact absurd hro hty.1
    · obtain rfl := Option.some.inj (hc.symm.trans hc')
      obtain rfl := Option.some.inj (hpr.symm.trans hpr')
      rw [asGetSegmentType_of_has hL.1, hnone] at hva
      cases hva
  | .inr fp, ⟨_, L, hat⟩ =>
    obtain rfl := Option.some.inj (hc.symm.trans hat.curproc)
    exact ⟨L, fp, hr, Option.some.inj (hat.proc.symm.trans hpr), hat⟩

/-- A fault on a valid page of the running process brings the page in. -/
theorem vmFault_paging {ioError : ℕ → Bool}
    {ty : SegType} (hk : Serves ioError p pr k)
    (hva : asGetSegmentType pr.pAddrspace va = .ok (some ty)) (write : Bool) :
    Meets (PagingFailure ioError pr) (fun r => r.1 = .ret none ∧ Serves ioError p pr r.2 ∧
      ∃ f, Inserted k va f r.2) (vmFault k (missFault write) va) := by
  have hspec := vmFault_spec hk.inv.owned hk.inv.procs (missFault write) va
  have hinv := (hk.inv.hit .tlbFault).inv
  obtain ⟨L, fp, hr, rfl, hat⟩ := faultLookup_valid hinv.procs hk.curproc hk.proc hva write
  have hmine : Meets (PagingFailure ioError fp.proc) (fun r => r.1 = .ret none ∧
      r.2.coremap.TwoAvailable ∧ r.2.swap.ioError = ioError ∧ ∃ f, Inserted k va f r.2)
      (vmFault k (missFault write) va) := by
    rw [vmFault, hr, ok_bind, ← hk.swap]
    refine (faultResolve_meets hinv.owned hat (coremapGetBegin_fails hinv.owned hk.two _)
      fun _ => Or.inl).bind fun k₁ hb => ?_
    obtain ⟨stats, hins⟩ := faultInsert_eq k₁ fp va
    rw [hins, ok_bind]
    exact ⟨rfl, hb.two hk.two, hb.swap, _, k₁, _, rfl, rfl, rfl, hb.tlb, rfl, rfl⟩
  refine (hmine.and hspec).mono ?_
  rintro ⟨res, k'⟩ ⟨⟨rfl, htwo, hio, hins⟩, hpost⟩
  have hkeeps := hpost.keeps hinv
  exact ⟨rfl, ⟨hkeeps.inv, (hpost.owned hinv.owned).2.2.trans hk.curproc,
    (congrFun hkeeps.procs _).trans hk.proc, hio, htwo⟩, hins⟩

/-! ## The TLB from fault to fault -/

/-- The page of `va` has a valid TLB entry. -/
def Tlb.Mapped (tlb : Tlb) (va : ℕ) : Prop :=
  ∃ i, (tlb.slot i).valid = true ∧ (tlb.slot i).ehi = pageFrame va

instance (tlb : Tlb) (va : ℕ) : Decidable (tlb.Mapped va) :=
  inferInstanceAs (Decidable (∃ _, _))

/-- The slot written last maps the page of `va` to frame `f`. -/
def Tlb.Latest (tlb : Tlb) (va f : ℕ) : Prop :=
  ∃ i, tlb.tlbVictim = i + 1 ∧ (tlb.slot i).valid = true ∧ (tlb.slot i).ehi = pageFrame va ∧
    (tlb.slot i).paddr = f * pageSize

namespace Tlb

variable {tlb : Tlb} {va f : ℕ}

theorem Latest.mapped (h : tlb.Latest va f) : tlb.Mapped va := by
  obtain ⟨i, -, hv, he, -⟩ := h
  exact ⟨i, hv, he⟩

theorem tlbVictim_remove (paddr : ℕ) : (tlb.remove paddr).tlbVictim = tlb.tlbVictim := by
  unfold remove
  split <;> rfl

/-- A removal leaves the entries of other pages alone. -/
theorem slot_remove_of_ne {paddr : ℕ} {i : Fin 64} (h : (tlb.slot i).paddr ≠ paddr) :
    (tlb.remove paddr).slot i = tlb.slot i := by
  unfold remove
  split
  · rename_i j hj
    have hij : i ≠ j := by
      rintro rfl
      exact h (by simpa using List.find?_some hj)
    simp [hij]
  · rfl

theorem latest_insert {x : TlbEntry} (hv : x.valid = true) (he : x.ehi = pageFrame va)
    (hp : x.paddr = f * pageSize) : (tlb.insert x).Latest va f := by
  refine ⟨tlb.tlbVictim, rfl, ?_⟩
  rw [slot_insert_self]
  exact ⟨hv, he, hp⟩

/-- The entry written last is still there after the next. -/
theorem Latest.insert (h : tlb.Latest va f) (x : TlbEntry) : (tlb.insert x).Mapped va := by
  obtain ⟨i, hi, hv, he, -⟩ := h
  have hne : i ≠ tlb.tlbVictim := by
    rw [hi]
    exact (by decide : ∀ i : Fin 64, i ≠ i + 1) i
  refine ⟨i, ?_⟩
  rw [slot_insert_of_ne hne]
  exact ⟨hv, he⟩

theorem Latest.remove {g : ℕ} (h : tlb.Latest va f) (hne : f ≠ g) :
    (tlb.remove (g * pageSize)).Latest va f := by
  obtain ⟨i, hi, hv, he, hp⟩ := h
  have hslot : (tlb.remove (g * pageSize)).slot i = tlb.slot i := by
    refine slot_remove_of_ne ?_
    rw [hp]
    exact fun heq => hne (Nat.eq_of_mul_eq_mul_right pageSize_pos heq)
  refine ⟨i, (tlbVictim_remove _).trans hi, ?_⟩
  rw [hslot]
  exact ⟨hv, he, hp⟩

end Tlb

namespace Inserted

variable {k k' : Kernel} {va vb f g : ℕ}

theorem latest (h : Inserted k va f k') : k'.tlb.Latest va f := by
  obtain ⟨k₁, x, hv, he, hp, -, htlb, -⟩ := h
  rw [htlb]
  exact Tlb.latest_insert hv he hp

/-- The entry of the fault before is gone only if its frame was taken, and then that frame is
the last victim. -/
theorem mapped_or (h : Inserted k vb g k') (hl : k.tlb.Latest va f) :
    k'.tlb.Mapped va ∨ k.Chosen f ∧ g = f ∧ k'.coremap.victimIndex = g := by
  obtain ⟨k₁, x, -, -, -, hkept | ⟨hc, hkept, hvi⟩, htlb, hvi'⟩ := h
  · rw [htlb, hkept]
    exact Or.inl (hl.insert x)
  · by_cases hfg : f = g
    · subst hfg
      exact Or.inr ⟨hc, rfl, hvi'.trans hvi⟩
    · rw [htlb, hkept]
      exact Or.inl ((hl.remove hfg).insert x)

end Inserted

/-! ## The restarted instruction -/

/-- An access of an instruction to a page. -/
structure Access where
  write : Bool
  va : ℕ

/-- The faults of an instruction with the accesses `accs`, at most `n` of them : each is on
the first access that has no TLB entry. `none` if `vm_fault` does not return `0`. -/
def restart (accs : List Access) : ℕ → Kernel → Except Halt (Option Kernel)
  | 0, k => .ok (some k)
  | n + 1, k =>
    match accs.find? fun a => ¬k.tlb.Mapped a.va with
    | none => .ok (some k)
    | some a => do
      match ← vmFault k (missFault a.write) a.va with
      | (.ret none, k) => restart accs n k
      | _ => .ok none

/-- Every access has its TLB entry. -/
def Settled (accs : List Access) (r : Option Kernel) : Prop :=
  ∃ k, r = some k ∧ ∀ a ∈ accs, k.tlb.Mapped a.va

section Restart

variable {ioError : ℕ → Bool} {p : ℕ} {pr : Proc} {k : Kernel} {accs : List Access}
  {a b : Access} {f : ℕ}

theorem restart_of_mapped (h : ∀ a ∈ accs, k.tlb.Mapped a.va) (n : ℕ) :
    restart accs n k = .ok (some k) := by
  cases n with
  | zero => rfl
  | succ n =>
    have hnone : (accs.find? fun a => ¬k.tlb.Mapped a.va) = none := by
      simpa using h
    rw [restart, hnone]

/-- One round : nothing is missing, or a missing page is brought in. -/
theorem restart_succ (hk : Serves ioError p pr k)
    (hval : ∀ a ∈ accs, ∃ ty, asGetSegmentType pr.pAddrspace a.va = .ok (some ty)) (n : ℕ)
    (hnext : ∀ a ∈ accs, ¬k.tlb.Mapped a.va → ∀ f k', Serves ioError p pr k' →
      Inserted k a.va f k' → Meets (PagingFailure ioError pr) (Settled accs) (restart accs n k')) :
    Meets (PagingFailure ioError pr) (Settled accs) (restart accs (n + 1) k) := by
  cases hfind : accs.find? fun a => ¬k.tlb.Mapped a.va with
  | none =>
    have hall : ∀ a ∈ accs, k.tlb.Mapped a.va := by simpa using hfind
    rw [restart_of_mapped hall]
    exact ⟨k, rfl, hall⟩
  | some a =>
    have hmem := List.mem_of_find?_eq_some hfind
    have hmiss : ¬k.tlb.Mapped a.va := by simpa using List.find?_some hfind
    obtain ⟨ty, hty⟩ := hval a hmem
    rw [restart, hfind]
    refine (vmFault_paging hk hty a.write).bind ?_
    rintro ⟨r, k'⟩ ⟨rfl, hk', f, hins⟩
    exact hnext a hmem hmiss f k' hk' hins

/-- After a fault on `b` that left the victim index at the frame of `b`, the fault on `a` is the
last one. -/
theorem restart_third (hk : Serves ioError p pr k)
    (hval : ∀ a ∈ accs, ∃ ty, asGetSegmentType pr.pAddrspace a.va = .ok (some ty))
    (hpair : ∀ c ∈ accs, c = a ∨ c = b) (hl : k.tlb.Latest b.va f)
    (hvi : k.coremap.victimIndex = f) :
    Meets (PagingFailure ioError pr) (Settled accs) (restart accs 1 k) := by
  refine restart_succ hk hval 0 fun c hc hmiss g k' hk' hins => ?_
  obtain rfl : c = a := by
    refine (hpair c hc).resolve_right ?_
    rintro rfl
    exact hmiss hl.mapped
  have hb : k'.tlb.Mapped b.va := by
    refine (hins.mapped_or hl).resolve_right ?_
    rintro ⟨hchosen, -⟩
    exact hchosen.ne_victimIndex hk.inv.owned hk.two hvi.symm
  exact ⟨k', rfl, fun d hd => (hpair d hd).elim (· ▸ hins.latest.mapped) (· ▸ hb)⟩

/-- After a fault on `a`, two more are enough. -/
theorem restart_second (hk : Serves ioError p pr k)
    (hval : ∀ a ∈ accs, ∃ ty, asGetSegmentType pr.pAddrspace a.va = .ok (some ty))
    (hpair : ∀ c ∈ accs, c = a ∨ c = b) (hl : k.tlb.Latest a.va f) :
    Meets (PagingFailure ioError pr) (Settled accs) (restart accs 2 k) := by
  refine restart_succ hk hval 1 fun c hc hmiss g k' hk' hins => ?_
  obtain rfl : c = b := by
    refine (hpair c hc).resolve_left ?_
    rintro rfl
    exact hmiss hl.mapped
  rcases hins.mapped_or hl with ha | ⟨-, rfl, hvi⟩
  · have hall : ∀ d ∈ accs, k'.tlb.Mapped d.va := fun d hd =>
      (hpair d hd).elim (· ▸ ha) (· ▸ hins.latest.mapped)
    rw [restart_of_mapped hall]
    exact ⟨k', rfl, hall⟩
  · exact restart_third hk' hval hpair hins.latest hvi

/-- Two pages of the running process have their TLB entries after three faults. -/
theorem restart_settles (hk : Serves ioError p pr k)
    (hval : ∀ c ∈ [a, b], ∃ ty, asGetSegmentType pr.pAddrspace c.va = .ok (some ty)) :
    Meets (PagingFailure ioError pr) (Settled [a, b]) (restart [a, b] 3 k) := by
  refine restart_succ hk hval 2 fun c hc _ f k' hk' hins => ?_
  rcases List.mem_pair.mp hc with rfl | rfl
  · exact restart_second hk' hval (fun d hd => List.mem_pair.mp hd) hins.latest
  · exact restart_second hk' hval (fun d hd => (List.mem_pair.mp hd).symm) hins.latest

end Restart

/-- In every state the sequential system reaches with two frames that are free or hold unlocked
user pages, an instruction that accesses two valid pages of the running process has the TLB
entries of both after at most three faults, unless swap space runs out or a device fails. -/
theorem no_paging_livelock {ramsize firstfree : ℕ} {s₀ s : Sys} {tr : List Event}
    (hb : Sys.Boot ramsize firstfree s₀) (hr : Run Sys.Step s₀ tr s)
    (hp : s.kernel.curproc = some p) (hpr : s.kernel.procs p = some pr) {T D : Access}
    (hT : s.kernel.Valid p T.va) (hD : s.kernel.Valid p D.va)
    (htwo : s.kernel.coremap.TwoAvailable)
    (hswap : restart [T, D] 3 s.kernel ≠ .error (.panic "Out of swap space\n")) :
    Meets (DeviceFailure s.kernel.swap.ioError pr) (Settled [T, D])
      (restart [T, D] 3 s.kernel) := by
  have hk : Serves s.kernel.swap.ioError p pr s.kernel :=
    ⟨(Sys.run_inv hb hr).kernel, hp, hpr, rfl, htwo⟩
  have hval : ∀ c ∈ [T, D], ∃ ty, asGetSegmentType pr.pAddrspace c.va = .ok (some ty) := by
    intro c hc
    have hc' : s.kernel.Valid p c.va := by
      rcases List.mem_pair.mp hc with rfl | rfl
      exacts [hT, hD]
    obtain ⟨pr', ty, hpr', hty⟩ := hc'
    obtain rfl := Option.some.inj (hpr.symm.trans hpr')
    exact ⟨ty, hty⟩
  have hsettles := restart_settles hk hval
  cases hres : restart [T, D] 3 s.kernel with
  | ok r => exact hsettles.of_ok hres
  | error e =>
    refine (hsettles.of_error hres).resolve_right ?_
    rintro rfl
    exact hswap hres

/-- An instruction of the text page that stores into the data page. -/
def smallStore : List Access :=
  [⟨false, 0x400000⟩, ⟨true, 0x10000001⟩]

/-- With two frames for three pages and the stack page in one of them, both pages are brought
in. -/
theorem no_paging_livelock_small : ∃ tr s pr, Run Sys.Step (.small 4) tr s ∧
    s.kernel.coremap.TwoAvailable ∧ (∀ a ∈ smallStore, ¬s.kernel.tlb.Mapped a.va) ∧
      Meets (DeviceFailure s.kernel.swap.ioError pr) (Settled smallStore)
        (restart smallStore 3 s.kernel) := by
  obtain ⟨tr, s, hrun, hcur, h2, h3, hmiss, hok, htext, hdata⟩ := Run.exists_of_execute Sys.next
    Sys.step_of_next (.small 4) [.build 1 Sys.smallFile, .store 0x7ffffff0 9]
    (fun _ s => s.kernel.curproc = some 1 ∧ s.kernel.coremap.Available 2 ∧
      s.kernel.coremap.Available 3 ∧ (∀ a ∈ smallStore, ¬s.kernel.tlb.Mapped a.va) ∧
      (restart smallStore 3 s.kernel).toOption.isSome ∧ ((s.kernel.procs 1).map fun pr =>
        (asGetSegmentType pr.pAddrspace 0x400000).toOption) = some (some (some .text)) ∧
      ((s.kernel.procs 1).map fun pr =>
        (asGetSegmentType pr.pAddrspace 0x10000001).toOption) = some (some (some .data)))
    (by decide +kernel)
  have htwo : s.kernel.coremap.TwoAvailable := ⟨2, 3, by decide, h2, h3⟩
  have hswap : restart smallStore 3 s.kernel ≠ .error (.panic "Out of swap space\n") := by
    intro herr
    rw [herr] at hok
    cases hok
  have hD := Kernel.valid_of_map hdata
  obtain ⟨pr, -, hpr, -⟩ := Kernel.valid_of_map htext
  exact ⟨tr, s, pr, hrun, htwo, hmiss, no_paging_livelock (Sys.small_boot (by decide) (by decide))
    hrun hcur hpr (Kernel.valid_of_map htext) hD htwo hswap⟩

end OS161
