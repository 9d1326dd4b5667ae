import OS161.Resolve

/-!
# Ownership is exact in every sequential run

`Sys.Inv` is the invariant of the sequential system : the page tables, the coremap and the
swap bitmap agree, every process was built from its file, and the blocks the kernel holds
are blocks of the coremap. `Sys.exec_spec` says that every operation keeps it and that none
fails an assertion, reads through `NULL` or hangs, apart from the set-up of a process,
whose checks of the file are assertions. From it follows `ownership_exact`.
-/

namespace OS161

open Function

/-- Frame `h` is the first of a block that belongs to the kernel. -/
structure Coremap.KernelBlock (cm : Coremap) (h : ℕ) : Prop where
  lt : h < cm.nRamFrames
  ne_zero : h ≠ 0
  used : cm.used h = true
  size : 0 < cm.size h
  owner : cm.owner h = none

/-- An entry of the TLB that is not valid is the one `tlb_invalidate` writes. -/
def Tlb.Shaped (tlb : Tlb) : Prop :=
  ∀ i, (tlb.slot i).valid = true ∨ tlb.slot i = tlbInvalid i

/-- The invariant of the kernel between two operations. -/
structure Kernel.Inv (k : Kernel) : Prop where
  owned : k.Owned (.quiet k.Live)
  procs : k.ProcsOk
  shaped : k.tlb.Shaped

/-- The invariant of the sequential system. -/
structure Sys.Inv (s : Sys) : Prop where
  kernel : s.kernel.Inv
  blocks : ∀ a ∈ s.kblocks, ∃ h, a = paddrToKvaddr (h * pageSize) ∧ s.kernel.coremap.KernelBlock h
  nodup : s.kblocks.Nodup

/-! ## Booting -/

theorem Coremap.initial_frameOwn {n r : ℕ} {pt : PtPtr → PtEntry} (hn : n ≤ 2 ^ 17)
    (hr : 0 < n → 0 < r) : FrameOwn (.quiet fun _ => False) (.initial n r) pt where
  wf := .initial hn
  zero := ⟨owner_initial, fun h => by rw [used_initial]; exact decide_eq_true (hr h)⟩
  resident _ _ hl := hl.elim
  owned f e _ _ ho := by
    rw [owner_initial] at ho
    cases ho
  limbo _ hl := hl.elim
  locked f _ := locked_initial
  out f s hs := by cases hs

theorem bitmapCreate_slotOwn (pt : PtPtr → PtEntry) :
    SlotOwn (.quiet fun _ => False) pt (bitmapCreate swapfileNpages) := by
  have hno : ∀ x s, ¬Holder.Holds (.quiet fun _ => False) pt x s := by
    rintro (e | f) s h
    · exact h.1
    · cases h
  refine ⟨bitmapCreate_wf _, rfl, fun x s h => absurd h (hno x s), fun s hs => ?_,
    fun x y s h => absurd h (hno x s)⟩
  constructor
  · intro h
    exact absurd h (not_marked_bitmapCreate hs)
  · rintro ⟨x, h⟩
    exact absurd h (hno x s)

theorem Sys.Boot.inv {ramsize firstfree : ℕ} {s : Sys} (h : Sys.Boot ramsize firstfree s) :
    s.Inv := by
  obtain ⟨cm, ram, swapfile, ioError, hcm, -, rfl⟩ := h
  obtain ⟨hn, hcm⟩ := coremapBootstrap_eq_ok hcm
  have hlive : Kernel.Live (boot cm ram swapfile ioError) = fun _ => False := by
    funext e
    simp [Kernel.Live, boot]
  have howned : Kernel.Owned (.quiet fun _ => False) (boot cm ram swapfile ioError) := by
    refine ⟨?_, bitmapCreate_slotOwn _⟩
    rw [hcm]
    exact Coremap.initial_frameOwn hn reservedFrames_pos
  refine ⟨⟨?_, ?_, fun i => Or.inr rfl⟩, ?_, List.nodup_nil⟩
  · rwa [hlive]
  · intro p pr hp
    cases hp
  · intro a ha
    cases ha

/-! ## Blocks of the kernel -/

section Blocks

variable {live : PtPtr → Prop} {k k' : Kernel} {n b h : ℕ} {e : Option PtPtr}

/-- A request gets other frames than the blocks the kernel holds. -/
theorem Granted.kernelBlock (hg : Granted live k n e b k') (hn : 0 < n)
    (hk : k.Owned (.quiet live)) (hb : k.coremap.KernelBlock h) :
    h ≠ b ∧ k'.coremap.KernelBlock h := by
  obtain ⟨h1, h2, h3, h4, h5⟩ := hb
  have hout : ¬(b ≤ h ∧ h < b + n) := by
    rintro ⟨h6, h7⟩
    rcases hg.victim with hrun | ⟨rfl, e', hl, hf⟩
    · rw [hrun.2 h h6 h7] at h3
      cases h3
    · obtain rfl : h = b := by omega
      have := (hk.frames.resident e' h hl hf).2.2.2
      rw [h5] at this
      cases this
  have hne : h ≠ b := by omega
  refine ⟨hne, ?_, h2, ?_, ?_, ?_⟩
  · rwa [hg.nRamFrames]
  · rw [hg.used, if_neg hout, h3]
  · rw [hg.size, if_neg hne]
    exact h4
  · rw [hg.owner, if_neg hout, h5]

/-- The frames the kernel was granted are a block it holds. -/
theorem Granted.kernelBlock_self (hg : Granted live k n none b k') (hn : 0 < n) (h0 : b ≠ 0)
    (hk : k.Owned (.quiet live)) : k'.coremap.KernelBlock b := by
  have hlt := hg.lt hk hn
  have hle : n ≤ 2 ^ 17 := by
    have h1 := hk.frames.wf.nRamFrames_le
    rcases hg.victim with hrun | ⟨rfl, -⟩
    · have := hrun.1
      omega
    · decide
  refine ⟨by rwa [hg.nRamFrames], h0, ?_, ?_, ?_⟩
  · rw [hg.used, if_pos (by omega)]
  · rw [hg.size, if_pos rfl, Nat.mod_eq_of_lt (by omega)]
    exact hn
  · rw [hg.owner, if_pos (by omega)]

/-- Freeing one block leaves the others. -/
theorem Coremap.KernelBlock.release {cm : Coremap} {h' : ℕ} (hw : cm.WF) (hb : cm.KernelBlock h)
    (hb' : cm.KernelBlock h') (hne : h ≠ h') : (cm.release h').KernelBlock h := by
  have hout : ¬(h' ≤ h ∧ h < h' + cm.size h') := by
    rintro ⟨h1, h2⟩
    have := (hw.tiled.inner h' hb'.lt h (by omega) h2).2
    have := hb.size
    omega
  refine ⟨hb.lt, hb.ne_zero, ?_, ?_, hb.owner⟩
  · rw [Coremap.used_release, if_neg hout, hb.used]
  · rw [Coremap.size_release, if_neg hne]
    exact hb.size

/-- Freeing a block of a list leaves the rest of the list. -/
theorem Coremap.KernelBlock.erase {cm : Coremap} {l : List ℕ} (hb : cm.KernelBlock h) (hw : cm.WF)
    (hl : ∀ a ∈ l, ∃ c, a = paddrToKvaddr (c * pageSize) ∧ cm.KernelBlock c) (hn : l.Nodup) :
    ∀ a ∈ l.erase (paddrToKvaddr (h * pageSize)),
      ∃ c, a = paddrToKvaddr (c * pageSize) ∧ (cm.release h).KernelBlock c := by
  intro a ha
  obtain ⟨hne, ha'⟩ := hn.mem_erase_iff.mp ha
  obtain ⟨c, rfl, hblock⟩ := hl a ha'
  refine ⟨c, rfl, hblock.release hw hb ?_⟩
  rintro rfl
  exact hne rfl

/-- The destruction of a table leaves the blocks of the kernel. -/
theorem Emptied.kernelBlock (he : Emptied k k') (hb : k.coremap.KernelBlock h) :
    k'.coremap.KernelBlock h := by
  obtain ⟨hu, hs⟩ := he.kernel h hb.owner
  exact ⟨he.nRamFrames ▸ hb.lt, hb.ne_zero, hu.trans hb.used, hs ▸ hb.size,
    (congrFun he.owner h).trans hb.owner⟩

end Blocks

/-! ## The shape of the TLB -/

namespace Tlb

variable {tlb : Tlb}

theorem Shaped.insert (h : tlb.Shaped) {x : TlbEntry} (hx : x.valid = true) :
    (tlb.insert x).Shaped := by
  intro i
  by_cases hi : i = tlb.tlbVictim
  · subst hi
    simp [Tlb.insert, hx]
  · simpa [Tlb.insert, hi] using h i

theorem Shaped.remove (h : tlb.Shaped) (paddr : ℕ) : (tlb.remove paddr).Shaped := by
  unfold Tlb.remove
  split
  · rename_i j _
    intro i
    by_cases hi : i = j
    · subst hi
      simp
    · simpa [hi] using h i
  · exact h

/-- A slot that matches a user address is valid. -/
theorem Shaped.valid_of_probe (h : tlb.Shaped) {va : ℕ} {i : Fin 64} (hva : va < userspacetop)
    (hi : tlb.probe va = some i) : (tlb.slot i).valid = true ∧ (tlb.slot i).ehi = pageFrame va := by
  have hehi : (tlb.slot i).ehi = pageFrame va := by
    simpa using List.find?_some hi
  refine ⟨(h i).resolve_right fun hinv => ?_, hehi⟩
  rw [hinv] at hehi
  have hle := pageFrame_le va
  simp only [tlbInvalid, pageSize, userspacetop, mipsKseg0] at hehi hva
  omega

/-- An access to the page that was just inserted can only fault because it is a write to a
read-only page. -/
theorem translate_insert (h : tlb.Shaped) {va : ℕ} {x : TlbEntry} (hva : va < userspacetop)
    (hx : x.valid = true) (hehi : x.ehi = pageFrame va) {write : Bool} {ty : FaultType}
    (ht : (tlb.insert x).translate write va = .inl ty) : ty = .readonly := by
  unfold translate at ht
  cases hp : (tlb.insert x).probe va with
  | none =>
    have := List.find?_eq_none.mp hp tlb.tlbVictim (List.mem_finRange _)
    simp [Tlb.insert, hehi] at this
  | some i =>
    rw [hp] at ht
    have hv := ((h.insert hx).valid_of_probe hva hp).1
    simp only [hv, Bool.true_eq_false, if_false] at ht
    split_ifs at ht
    exact (Sum.inl.inj ht).symm

end Tlb

/-! ## Faults and accesses -/

/-- `k'` keeps the invariant, the processes and the blocks of the kernel of `k`. -/
structure Kernel.Keeps (k k' : Kernel) : Prop where
  inv : k'.Inv
  procs : k'.procs = k.procs
  blocks : ∀ h, k.coremap.KernelBlock h → k'.coremap.KernelBlock h

namespace Kernel.Keeps

variable {k k' k'' : Kernel}

theorem refl (h : k.Inv) : k.Keeps k :=
  ⟨h, rfl, fun _ => id⟩

theorem trans (h : k.Keeps k') (h' : k'.Keeps k'') : k.Keeps k'' :=
  ⟨h'.inv, h'.procs.trans h.procs, fun b hb => h'.blocks b (h.blocks b hb)⟩

/-- The counters, the current process and the bytes of memory take no part. -/
theorem congr (h : k.Keeps k') (hcm : k''.coremap = k'.coremap) (hpt : k''.pt = k'.pt)
    (hs : k''.swap.swapmap = k'.swap.swapmap) (hp : k''.procs = k'.procs) (ht : k''.tlb = k'.tlb) :
    k.Keeps k'' := by
  have hlive : k''.Live = k'.Live := by
    funext e
    simp only [Kernel.Live, hp]
  refine ⟨⟨⟨?_, ?_⟩, ?_, ?_⟩, hp.trans h.procs, ?_⟩
  · rw [hlive, hcm, hpt]
    exact h.inv.owned.frames
  · rw [hlive, hpt, hs]
    exact h.inv.owned.slots
  · intro p pr hpr
    rw [hp] at hpr
    exact h.inv.procs p pr hpr
  · rw [ht]
    exact h.inv.shaped
  · rw [hcm]
    exact h.blocks

end Kernel.Keeps

theorem Kernel.Inv.hit {k : Kernel} (h : k.Inv) (stat : Vmstat) : k.Keeps (vmstatsHit k stat) :=
  (Kernel.Keeps.refl h).congr rfl rfl rfl rfl rfl

section Faults

variable {k k' : Kernel} {ty : FaultType} {va : ℕ}

theorem Granted.shaped {live : PtPtr → Prop} {n b : ℕ} {e : Option PtPtr}
    (h : Granted live k n e b k') (hs : k.tlb.Shaped) : k'.tlb.Shaped := by
  cases h with
  | free => exact hs
  | dropped => exact hs.remove _
  | swapped => exact hs.remove _

theorem Resolved.keeps {L : Layout} {fp : FaultPage} (hr : Resolved L fp va k k')
    (hat : FaultAt k L fp va) (hk : k.Inv) : k.Keeps k' := by
  have hlive : k'.Live = k.Live := by
    funext e
    simp only [Kernel.Live, hr.procs.1]
  have hgranted : ∀ {f k₁}, Granted k.Live k 1 (some fp.ptRow) f k₁ →
      k₁.tlb.Shaped ∧ ∀ h, k.coremap.KernelBlock h → k₁.coremap.KernelBlock h := fun hgr =>
    ⟨hgr.shaped hk.shaped, fun h hb => (hgr.kernelBlock Nat.one_pos hk.owned hb).2⟩
  refine ⟨⟨?_, ?_, ?_⟩, hr.procs.1, ?_⟩
  · rw [hlive]
    exact hr.owned hk.owned hat
  · intro p pr hp
    rw [hr.procs.1] at hp
    exact hk.procs p pr hp
  · cases hr with
    | reload => exact hk.shaped
    | loaded _ _ hgr => exact (hgranted hgr).1
    | fetched _ _ hgr => exact (hgranted hgr).1
  · cases hr with
    | reload => exact fun _ => id
    | loaded _ _ hgr => exact (hgranted hgr).2
    | fetched _ _ hgr => exact (hgranted hgr).2

theorem FaultPost.keeps {r : FaultResult × Kernel} (h : FaultPost k ty va r) (hk : k.Inv) :
    k.Keeps r.2 := by
  match r, h with
  | (.ret none, _), ⟨_, L, fp, k₁, stats, hat, hres, hr⟩ =>
    subst hr
    obtain ⟨⟨howned, hprocs, hshaped⟩, hp, hb⟩ := hres.keeps hat hk
    exact ⟨⟨⟨howned.frames, howned.slots⟩, hprocs, hshaped.insert rfl⟩, hp, hb⟩
  | (.ret (some e), _), ⟨_, hr⟩ =>
    subst hr
    exact .refl hk
  | (.exit status, _), ⟨_, hr⟩ =>
    subst hr
    exact .refl hk

/-- How an access gets to its last attempt : at once, or after a fault that brought the
page in. -/
def Attempt (write : Bool) (va : ℕ) (k k' : Kernel) : Prop :=
  k' = k ∨ ∃ ty, k.tlb.translate write va = .inl ty ∧
    FaultPost (vmstatsHit k .tlbFault) ty va (.ret none, k')

/-- The last attempt of an access succeeds, or it faults and the process is killed. -/
def AccessPost (write : Bool) (va : ℕ) (k : Kernel) : Option ℕ × Kernel → Prop
  | (some pa, k') => Attempt write va k k' ∧ k'.tlb.translate write va = .inr pa
  | (none, k') => ∃ k₁ ty status, Attempt write va k k₁ ∧ k₁.tlb.translate write va = .inl ty ∧
      FaultPost (vmstatsHit k₁ .tlbFault) ty va (.exit status, vmstatsHit k₁ .tlbFault) ∧
      k' = { vmstatsHit k₁ .tlbFault with curproc := none }

theorem Attempt.keeps {write : Bool} (h : Attempt write va k k') (hk : k.Inv) : k.Keeps k' := by
  rcases h with rfl | ⟨ty, -, hf⟩
  · exact .refl hk
  · exact (hk.hit _).trans (hf.keeps (hk.hit _).inv)

theorem userAccess_spec (hk : k.Inv) (write : Bool) (va : ℕ) :
    Meets Halt.Resource (fun r => va < userspacetop ∧ AccessPost write va k r)
      (userAccess write va accessFuel k) := by
  unfold accessFuel userAccess
  split_ifs with htop
  · exact trivial
  have hva : va < userspacetop := not_le.mp htop
  cases ht : k.tlb.translate write va with
  | inr pa => exact ⟨hva, Or.inl rfl, ht⟩
  | inl ty =>
    refine (vmFault_spec hk.owned hk.procs ty va).bind ?_
    rintro ⟨r, k₁⟩ hf
    match r, hf with
    | .ret (some e), hf => exact trivial
    | .exit status, ⟨hl, hr⟩ =>
      subst hr
      exact ⟨hva, k, ty, status, Or.inl rfl, ht, ⟨hl, rfl⟩, rfl⟩
    | .ret none, hf =>
      have hatt : Attempt write va k k₁ := Or.inr ⟨ty, ht, hf⟩
      obtain ⟨-, L, fp, k₂, stats, hat, hres, hr⟩ := hf
      dsimp only
      rw [userAccess, if_neg htop]
      cases ht' : k₁.tlb.translate write va with
      | inr pa => exact ⟨hva, hatt, ht'⟩
      | inl ty' =>
        have hshape := (hres.keeps hat (hk.hit _).inv).inv.shaped
        obtain rfl : ty' = .readonly := by
          subst hr
          exact Tlb.translate_insert hshape hva rfl rfl ht'
        exact ⟨hva, k₁, .readonly, -1, hatt, ht', ⟨⟨rfl, Or.inl rfl⟩, rfl⟩, rfl⟩

theorem AccessPost.keeps {write : Bool} {r : Option ℕ × Kernel} (h : AccessPost write va k r)
    (hk : k.Inv) : k.Keeps r.2 := by
  match r, h with
  | (some pa, k'), ⟨hatt, _⟩ => exact hatt.keeps hk
  | (none, k'), ⟨k₁, ty, status, hatt, _, _, hr⟩ =>
    subst hr
    exact (hatt.keeps hk).congr rfl rfl rfl rfl rfl

end Faults

/-! ## Operations -/

/-- The state of process `p` after it was built from the file `v`. -/
def Kernel.build (k : Kernel) (p : ℕ) (v : Vnode) (as : AddrSpace) : Kernel :=
  { tlbInvalidate { k with curproc := some p } with
    procs := update k.procs p (some ⟨as, v⟩)
    pt := fun e => if e.asid = p then ⟨0, 0, .notLoaded⟩ else k.pt e }

/-- Everything an operation can do in a state that satisfies the invariant. -/
def StepPost (s : Sys) : SysOp → Event × Sys → Prop
  | .build p v, (ev, s') => (∃ as L, ev = .built p v ∧ Proc.Built ⟨as, v⟩ L ∧
      s' = { s with kernel := s.kernel.build p v as }) ∨
      ∃ e, ev = .buildFailed v e ∧
        s' = { s with kernel := { tlbInvalidate s.kernel with curproc := none } }
  | .destroy p, (ev, s') => ev = .destroyed p ∧ ∃ k₁, Emptied s.kernel k₁ ∧
      s' = { s with kernel := { k₁ with procs := update s.kernel.procs p none } } ∧
      s'.kernel.Owned (.quiet s'.kernel.Live)
  | .switch p, (ev, s') => ev = .switched p ∧
      s' = { s with kernel := asActivate { s.kernel with curproc := p } }
  | .allocKpages n, (ev, s') => ∃ b k', b ≠ 0 ∧ Granted s.kernel.Live s.kernel n none b k' ∧
      ev = .allocated n (paddrToKvaddr (b * pageSize)) ∧
      s' = ⟨k', paddrToKvaddr (b * pageSize) :: s.kblocks⟩
  | .freeKpages addr, (ev, s') => ev = .freed addr ∧ ∃ h, addr = paddrToKvaddr (h * pageSize) ∧
      s.kernel.coremap.KernelBlock h ∧
      s' = ⟨{ s.kernel with coremap := s.kernel.coremap.release h }, s.kblocks.erase addr⟩
  | .fault ty va, (ev, s') => ∃ r k', FaultPost (vmstatsHit s.kernel .tlbFault) ty va (r, k') ∧
      ev = .faulted ty va r ∧
      s' = { s with kernel := match r with
        | .ret _ => k'
        | .exit _ => { k' with curproc := none } }
  | .load va, (ev, s') => ∃ r k', va < userspacetop ∧ AccessPost false va s.kernel (r, k') ∧
      s' = { s with kernel := k' } ∧
      ev = match r with
        | some pa => .loaded s.current va (k'.ram pa)
        | none => .killed s.current va
  | .store va b, (ev, s') => ∃ r k', va < userspacetop ∧ AccessPost true va s.kernel (r, k') ∧
      match r with
      | some pa => ev = .stored s.current va b ∧
          s' = { s with kernel := { k' with ram := update k'.ram pa b } }
      | none => ev = .killed s.current va ∧ s' = { s with kernel := k' }

namespace Sys

variable {s : Sys}

theorem build_spec {p : ℕ} {v : Vnode} {r : Event × Sys} (h : s.exec (.build p v) = .ok r) :
    StepPost s (.build p v) r := by
  simp only [exec, buildProcess, bind_eq_ok, Prod.exists] at h
  obtain ⟨err, k', ⟨result, as, u, hload, hk'⟩, hr⟩ := h
  cases result with
  | error e =>
    cases hk'
    cases hr
    exact Or.inr ⟨e, rfl, rfl⟩
  | ok q =>
    cases hk'
    cases hr
    obtain ⟨L, hL⟩ := loadProgram_built hload
    exact Or.inl ⟨as, L, rfl, hL, rfl⟩

/-- No operation but the set-up of a process stops other than by a panic. -/
theorem exec_spec (hs : s.Inv) {op : SysOp} (hal : s.Allowed op) (hop : ∀ p v, op ≠ .build p v) :
    Meets Halt.Resource (StepPost s op) (s.exec op) := by
  cases op with
  | build p v => exact absurd rfl (hop p v)
  | destroy p =>
    obtain ⟨pr, hpr⟩ := Option.isSome_iff_exists.mp hal.1
    obtain ⟨L, hL⟩ := hs.kernel.procs p pr hpr
    obtain ⟨k', k₁, hd, he, hk', ho⟩ := asDestroy_spec hs.kernel.owned rfl hpr hL.1
      fun _ _ _ _ => rfl
    rw [exec, hd, ok_bind]
    subst hk'
    exact ⟨rfl, k₁, he, rfl, ho⟩
  | switch p => exact ⟨rfl, rfl⟩
  | allocKpages n =>
    refine ((getppages_spec hs.kernel.owned hal none).bind
      (R := fun r => ∃ b, b ≠ 0 ∧ r.1 = paddrToKvaddr (b * pageSize) ∧
        Granted s.kernel.Live s.kernel n none b r.2) ?_).bind ?_
    · rintro ⟨pa, k'⟩ ⟨b, h0, rfl, hgr⟩
      exact ⟨b, h0, rfl, hgr⟩
    · rintro ⟨addr, k'⟩ ⟨b, h0, rfl, hgr⟩
      exact ⟨b, k', h0, hgr, rfl, rfl⟩
  | freeKpages addr =>
    obtain ⟨h, rfl, hb⟩ := hs.blocks addr hal
    have hfree := coremapFreeppages_eq hs.kernel.owned.frames.wf hb.lt hb.size
    rw [exec, freeKpages, freeppages, kvaddrToPaddr_paddrToKvaddr, hfree, ok_bind, ok_bind]
    exact ⟨rfl, h, rfl, hb, rfl⟩
  | fault ty va =>
    refine (vmFault_spec hs.kernel.owned hs.kernel.procs ty va).bind ?_
    rintro ⟨r, k'⟩ hf
    cases r with
    | ret e | exit status => exact ⟨_, k', hf, rfl, rfl⟩
  | load va =>
    refine (userAccess_spec hs.kernel false va).bind ?_
    rintro ⟨r, k'⟩ ⟨hva, hpost⟩
    cases r with
    | none => exact ⟨none, k', hva, hpost, rfl, rfl⟩
    | some pa => exact ⟨some pa, k', hva, hpost, rfl, rfl⟩
  | store va b =>
    refine (userAccess_spec hs.kernel true va).bind ?_
    rintro ⟨r, k'⟩ ⟨hva, hpost⟩
    cases r with
    | none => exact ⟨none, k', hva, hpost, rfl, rfl⟩
    | some pa => exact ⟨some pa, k', hva, hpost, rfl, rfl⟩

/-- Everything a step can do. -/
theorem step_cases {s' : Sys} {ev : Event} (hs : s.Inv) (h : s.Step ev s') :
    ∃ op, s.Allowed op ∧ StepPost s op (ev, s') := by
  obtain ⟨op, hal, he⟩ := h
  refine ⟨op, hal, ?_⟩
  by_cases hop : ∃ p v, op = .build p v
  · obtain ⟨p, v, rfl⟩ := hop
    exact build_spec he
  · exact (exec_spec hs hal fun p v h => hop ⟨p, v, h⟩).of_ok he

/-- An operation that keeps the kernel's invariant and its blocks keeps the system's. -/
theorem Inv.of_keeps {k' : Kernel} (hs : s.Inv) (h : s.kernel.Keeps k') :
    Inv { s with kernel := k' } := by
  refine ⟨h.inv, fun a ha => ?_, hs.nodup⟩
  obtain ⟨b, hb, hblock⟩ := hs.blocks a ha
  exact ⟨b, hb, h.blocks b hblock⟩

end Sys

/-- A new process has entries of pages that are not loaded. -/
theorem Kernel.Inv.build {k : Kernel} {p : ℕ} {v : Vnode} {as : AddrSpace} {L : Layout}
    (hk : k.Inv) (hp : k.procs p = none) (hL : Proc.Built ⟨as, v⟩ L) : (k.build p v as).Inv := by
  have hold : ∀ e, k.Live e → (k.build p v as).Live e ∧ (k.build p v as).pt e = k.pt e := by
    rintro e ⟨pr, n, hpr, hn, hi⟩
    have hne : e.asid ≠ p := by
      intro h
      rw [h, hp] at hpr
      cases hpr
    refine ⟨⟨pr, n, ?_, hn, hi⟩, if_neg hne⟩
    simpa [Kernel.build, hne] using hpr
  have hnew : ∀ e, (k.build p v as).Live e →
      k.Live e ∨ (k.build p v as).pt e = ⟨0, 0, .notLoaded⟩ := by
    rintro e ⟨pr, n, hpr, hn, hi⟩
    by_cases hne : e.asid = p
    · exact Or.inr (if_pos hne)
    · exact Or.inl ⟨pr, n, by simpa [Kernel.build, hne] using hpr, hn, hi⟩
  refine ⟨⟨?_, ?_⟩, ?_, fun i => Or.inr rfl⟩
  · refine hk.owned.frames.revive hold fun e hl => (hnew e hl).imp id fun h f => ?_
    rw [h]
    exact PtEntry.not_inFrame_of_notLoaded rfl f
  · refine hk.owned.slots.revive hold fun e hl => (hnew e hl).imp id fun h s => ?_
    rw [h]
    exact PtEntry.not_inSlot_of_notLoaded rfl s
  · intro q pr hpr
    by_cases hq : q = p
    · subst hq
      simp only [Kernel.build, update_self, Option.some.injEq] at hpr
      subst hpr
      exact ⟨L, hL⟩
    · exact hk.procs q pr (by simpa [Kernel.build, hq] using hpr)

theorem Kernel.Inv.asActivate {k : Kernel} (hk : k.Inv) : k.Keeps (asActivate k) := by
  unfold OS161.asActivate
  split
  · exact .refl hk
  · exact ⟨⟨⟨hk.owned.frames, hk.owned.slots⟩, hk.procs, fun i => Or.inr rfl⟩, rfl, fun _ => id⟩

namespace Sys

variable {s : Sys}

/-- Every operation keeps the invariant. -/
theorem StepPost.inv {op : SysOp} {ev : Event} {s' : Sys} (hs : s.Inv) (hal : s.Allowed op)
    (h : StepPost s op (ev, s')) : s'.Inv := by
  cases op with
  | build p v =>
    rcases h with ⟨as, L, -, hL, rfl⟩ | ⟨e, -, rfl⟩
    · exact ⟨hs.kernel.build hal hL, hs.blocks, hs.nodup⟩
    · refine hs.of_keeps ⟨⟨⟨?_, ?_⟩, hs.kernel.procs, fun i => Or.inr rfl⟩, rfl, fun _ => id⟩
      · exact hs.kernel.owned.frames
      · exact hs.kernel.owned.slots
  | destroy p =>
    obtain ⟨-, k₁, he, rfl, ho⟩ := h
    refine ⟨⟨ho, ?_, ?_⟩, ?_, hs.nodup⟩
    · intro q pr hpr
      by_cases hq : q = p
      · subst hq
        simp at hpr
      · exact hs.kernel.procs q pr (by simpa [hq] using hpr)
    · rw [he.tlb]
      exact hs.kernel.shaped
    · intro a ha
      obtain ⟨b, hb, hblock⟩ := hs.blocks a ha
      exact ⟨b, hb, he.kernelBlock hblock⟩
  | switch p =>
    obtain ⟨-, rfl⟩ := h
    have hk : s.kernel.Keeps { s.kernel with curproc := p } :=
      (Kernel.Keeps.refl hs.kernel).congr rfl rfl rfl rfl rfl
    exact hs.of_keeps (hk.trans hk.inv.asActivate)
  | allocKpages n =>
    obtain ⟨b, k', h0, hgr, -, rfl⟩ := h
    have hlive : k'.Live = s.kernel.Live := by
      funext e
      simp only [Kernel.Live, hgr.procs]
    have howned := hgr.owned hs.kernel.owned hal fun h => by cases h
    rw [Ghost.grant_none _ (fun hf => hf)] at howned
    refine ⟨⟨?_, ?_, hgr.shaped hs.kernel.shaped⟩, ?_, ?_⟩
    · rwa [hlive]
    · intro q pr hpr
      rw [hgr.procs] at hpr
      exact hs.kernel.procs q pr hpr
    · intro a ha
      rcases List.mem_cons.mp ha with rfl | ha
      · exact ⟨b, rfl, hgr.kernelBlock_self hal h0 hs.kernel.owned⟩
      · obtain ⟨c, hc, hblock⟩ := hs.blocks a ha
        exact ⟨c, hc, (hgr.kernelBlock hal hs.kernel.owned hblock).2⟩
    · refine List.nodup_cons.mpr ⟨fun ha => ?_, hs.nodup⟩
      obtain ⟨c, hc, hblock⟩ := hs.blocks _ ha
      exact (hgr.kernelBlock hal hs.kernel.owned hblock).1 (paddrToKvaddr_inj hc).symm
  | freeKpages addr =>
    obtain ⟨-, h, rfl, hb, rfl⟩ := h
    refine ⟨⟨⟨hs.kernel.owned.frames.release hb.lt hb.ne_zero hb.owner, hs.kernel.owned.slots⟩,
      hs.kernel.procs, hs.kernel.shaped⟩, ?_, hs.nodup.erase _⟩
    exact hb.erase hs.kernel.owned.frames.wf hs.blocks hs.nodup
  | fault ty va =>
    obtain ⟨r, k', hf, -, rfl⟩ := h
    have hk := (hs.kernel.hit .tlbFault).trans (hf.keeps (hs.kernel.hit _).inv)
    cases r with
    | ret e => exact hs.of_keeps hk
    | exit status => exact hs.of_keeps (hk.congr rfl rfl rfl rfl rfl)
  | load va =>
    obtain ⟨r, k', -, hpost, rfl, -⟩ := h
    exact hs.of_keeps (hpost.keeps hs.kernel)
  | store va b =>
    obtain ⟨r, k', -, hpost, h⟩ := h
    have hk := hpost.keeps hs.kernel
    cases r with
    | none =>
      obtain ⟨-, rfl⟩ := h
      exact hs.of_keeps hk
    | some pa =>
      obtain ⟨-, rfl⟩ := h
      exact hs.of_keeps (hk.congr rfl rfl rfl rfl rfl)

theorem step_inv {ev : Event} {s' : Sys} (hs : s.Inv) (h : s.Step ev s') : s'.Inv := by
  obtain ⟨op, hal, hpost⟩ := step_cases hs h
  exact StepPost.inv hs hal hpost

theorem run_inv {ramsize firstfree : ℕ} {s₀ : Sys} {tr : List Event}
    (hb : Boot ramsize firstfree s₀) (hr : Run Step s₀ tr s) : s.Inv :=
  hr.invariant hb.inv fun _ _ _ hi hs => step_inv hi hs

end Sys

/-! ## Exact ownership -/

/-- The page tables, the coremap and the swap bitmap say the same. -/
structure OwnershipExact (k : Kernel) : Prop where
  frames : ∀ e f, k.Live e → ((k.pt e).InFrame f ↔ k.coremap.OwnedBy f e)
  owner_live : ∀ f e, f < k.coremap.nRamFrames → k.coremap.used f = true →
    k.coremap.owner f = some e → k.Live e
  slots : ∀ s < swapfileNpages, k.swap.swapmap.Marked s ↔ ∃! e, k.Live e ∧ (k.pt e).InSlot s
  slot_lt : ∀ e s, k.Live e → (k.pt e).InSlot s → s < swapfileNpages

theorem Kernel.Owned.exact {k : Kernel} (h : k.Owned (.quiet k.Live)) : OwnershipExact k := by
  have howned : ∀ f e, f < k.coremap.nRamFrames → k.coremap.used f = true →
      k.coremap.owner f = some e → k.Live e ∧ (k.pt e).InFrame f := fun f e h1 h2 h3 =>
    (h.frames.owned f e h1 h2 h3).2.resolve_left id
  refine ⟨fun e f hl => ⟨h.frames.resident e f hl, ?_⟩, ?_, ?_, ?_⟩
  · rintro ⟨h1, h2, -, h4⟩
    exact (howned f e h1 h2 h4).2
  · intro f e h1 h2 h3
    exact (howned f e h1 h2 h3).1
  · intro s hs
    rw [h.slots.marked s hs]
    constructor
    · rintro ⟨x, hx⟩
      cases x with
      | frame f => cases hx
      | page e =>
        refine ⟨e, hx, fun e' he' => ?_⟩
        exact Holder.page.inj (h.slots.unique (.page e') (.page e) s he' hx)
    · rintro ⟨e, he, -⟩
      exact ⟨.page e, he⟩
  · intro e s hl hs
    exact h.slots.lt (.page e) s ⟨hl, hs⟩

/-- No frame and no swap slot of process `p` in `k` is allocated in `k'`. -/
structure Released (p : ℕ) (k k' : Kernel) : Prop where
  frames : ∀ e f, e.asid = p → k.coremap.OwnedBy f e → k'.coremap.used f = false
  slots : ∀ e s, e.asid = p → k.Live e → (k.pt e).InSlot s → ¬k'.swap.swapmap.Marked s

/-- The destruction of an address space releases what it had. -/
theorem Emptied.released {k k₁ : Kernel} {p : ℕ} (he : Emptied k k₁)
    (hk : k.Owned (.quiet k.Live))
    (hk' : OwnershipExact { k₁ with procs := update k.procs p none }) :
    Released p k { k₁ with procs := update k.procs p none } := by
  have hdead : ∀ e : PtPtr, e.asid = p →
      ¬Kernel.Live { k₁ with procs := update k.procs p none } e := by
    rintro e rfl ⟨pr, n, hpr, -⟩
    simp at hpr
  have hback : ∀ e, Kernel.Live { k₁ with procs := update k.procs p none } e →
      k.Live e := by
    rintro e ⟨pr, n, hpr, hn, hi⟩
    by_cases hp : e.asid = p
    · simp [hp] at hpr
    · exact ⟨pr, n, by simpa [hp] using hpr, hn, hi⟩
  refine ⟨fun e f hp ho => ?_, fun e s hp hl hs hm => ?_⟩
  · by_contra hu
    refine hdead e hp (hk'.owner_live f e ?_ (by simpa using hu) ?_)
    · exact he.nRamFrames ▸ ho.1
    · exact (congrFun he.owner f).trans ho.2.2.2
  · have hlt := hk.exact.slot_lt e s hl hs
    obtain ⟨e', ⟨hl', hs'⟩, -⟩ := (hk'.slots s hlt).mp hm
    have hs'' : (k.pt e').InSlot s := by
      rw [← he.pt]
      exact hs'
    have := hk.slots.unique (.page e') (.page e) s ⟨hback e' hl', hs''⟩ ⟨hl, hs⟩
    obtain rfl := Holder.page.inj this
    exact hdead e' hp hl'

/-- In every state the sequential system reaches from booting, the three records of
ownership agree. An operation in such a state keeps them in agreement and stops only by a
panic, except for the checks of the file when a process is built, so that no assertion of
the swap and coremap code fails. After `as_destroy` nothing of the address space is
allocated. -/
theorem ownership_exact {ramsize firstfree : ℕ} {s₀ s : Sys} {tr : List Event}
    (hb : Sys.Boot ramsize firstfree s₀) (hr : Run Sys.Step s₀ tr s) :
    OwnershipExact s.kernel ∧
    (∀ op, s.Allowed op → (∀ p v, op ≠ .build p v) →
      Meets Halt.Resource (fun r => OwnershipExact r.2.kernel) (s.exec op)) ∧
    ∀ p ev s', s.Allowed (.destroy p) → s.exec (.destroy p) = .ok (ev, s') →
      Released p s.kernel s'.kernel := by
  have hs := Sys.run_inv hb hr
  refine ⟨hs.kernel.owned.exact, fun op hal hop => ?_, fun p ev s' hal he => ?_⟩
  · refine (Sys.exec_spec hs hal hop).mono ?_
    rintro ⟨ev, s'⟩ hpost
    exact (Sys.StepPost.inv hs hal hpost).kernel.owned.exact
  · have hpost := (Sys.exec_spec hs hal (by simp)).of_ok he
    have hs' := Sys.StepPost.inv hs hal hpost
    obtain ⟨-, k₁, hem, rfl, ho⟩ := hpost
    exact hem.released hs.kernel.owned hs'.kernel.owned.exact

/-- A process has its stack and its text in memory, and its data in swap. -/
theorem ownership_exact_small : ∃ tr s, Run Sys.Step (.small 4) tr s ∧ OwnershipExact s.kernel ∧
    s.kernel.coremap.owner 2 = some ⟨1, 19⟩ ∧ s.kernel.coremap.owner 3 = some ⟨1, 0⟩ ∧
    s.kernel.swap.swapmap.Marked 0 := by
  obtain ⟨tr, s, hrun, hend⟩ := Run.exists_of_execute Sys.next Sys.step_of_next (.small 4)
    [.build 1 Sys.smallFile, .store 0x10000001 7, .load 0x400002, .store 0x7ffffff0 3]
    (fun _ s => s.kernel.coremap.owner 2 = some ⟨1, 19⟩ ∧
      s.kernel.coremap.owner 3 = some ⟨1, 0⟩ ∧ s.kernel.swap.swapmap.Marked 0) (by decide +kernel)
  exact ⟨tr, s, hrun, (ownership_exact (Sys.small_boot (by decide) (by decide)) hrun).1, hend⟩

end OS161
