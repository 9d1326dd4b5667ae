import OS161.Exact

/-!
# The TLB and the page table of the running process

The TLB is written by `tlb_insert` at the end of a fault, by `tlb_remove_by_paddr` when a
page is evicted, and by `tlb_invalidate` when an address space is activated; the page
tables change under it, also those of other processes. `TlbAgrees` says that each valid
slot maps a page of the running process to the frame its page table has for it, and that
no two valid slots map the same page. With the ownership of frames it follows that no two
slots map the same frame (`TlbAgrees.frame_inj`), so that `tlb_remove_by_paddr`, which
stops at its first match, removes the only mapping of an evicted frame
(`TlbAgrees.evict`).

The processor raises a fault only when the TLB calls for it (`FaultRaised`).
`tlb_right_of_run` is the result for every run in which faults are raised so and the
segments of each program share no page.
-/

namespace OS161

open Function

/-! ## Agreement -/

/-- Every valid slot maps a page of process `p` to the frame its page table has for it, and
no two map the same page. -/
structure TlbAgrees (tlb : Tlb) (pt : PtPtr → PtEntry) (p : ℕ) (L : Layout) : Prop where
  maps : ∀ i, (tlb.slot i).valid = true → ∃ ty a f, (L.seg ty).Contains a ∧
    (tlb.slot i).ehi = pageFrame a ∧ (pt ⟨p, L.indexIn ty a⟩).InFrame f ∧
    (tlb.slot i).paddr = f * pageSize ∧ ((tlb.slot i).dirty = true ↔ ty ≠ .text)
  page_inj : ∀ i j, (tlb.slot i).valid = true → (tlb.slot j).valid = true →
    (tlb.slot i).ehi = (tlb.slot j).ehi → i = j

namespace Tlb

variable {tlb : Tlb} {i : Fin 64}

theorem slot_insert_self (x : TlbEntry) : (tlb.insert x).slot tlb.tlbVictim = x := by
  simp [Tlb.insert]

theorem slot_insert_of_ne {x : TlbEntry} (h : i ≠ tlb.tlbVictim) :
    (tlb.insert x).slot i = tlb.slot i := by
  simp [Tlb.insert, h]

/-- A slot that is valid after a removal was not touched by it; if it has the page address
that was to be removed, an earlier slot had it too. -/
theorem slot_remove {paddr : ℕ} (h : ((tlb.remove paddr).slot i).valid = true) :
    (tlb.remove paddr).slot i = tlb.slot i ∧
      ((tlb.slot i).paddr = paddr → ∃ j, j ≠ i ∧ (tlb.slot j).paddr = paddr) := by
  unfold Tlb.remove at h ⊢
  split at h
  · rename_i j hj
    have hji : i ≠ j := by
      rintro rfl
      simp [tlbInvalid] at h
    refine ⟨by simp [hji], fun _ => ⟨j, hji.symm, ?_⟩⟩
    simpa using List.find?_some hj
  · rename_i hnone
    refine ⟨rfl, fun hp => ?_⟩
    have := List.find?_eq_none.mp hnone i (List.mem_finRange i)
    simp [hp] at this

end Tlb

namespace TlbAgrees

variable {tlb : Tlb} {pt : PtPtr → PtEntry} {p f : ℕ} {L : Layout} {g : Ghost} {cm : Coremap}

/-- Where frames belong to one page each, no two slots map the same frame. -/
theorem frame_inj (h : TlbAgrees tlb pt p L) (ho : FrameOwn g cm pt) (hw : L.WF)
    (hl : ∀ i < L.npages, g.live ⟨p, i⟩) {i j : Fin 64} (hi : (tlb.slot i).valid = true)
    (hj : (tlb.slot j).valid = true) (hp : (tlb.slot i).paddr = (tlb.slot j).paddr) : i = j := by
  obtain ⟨ty, a, f, hc, he, hf, hpa, -⟩ := h.maps i hi
  obtain ⟨ty', a', f', hc', he', hf', hpa', -⟩ := h.maps j hj
  obtain rfl : f = f' := Nat.eq_of_mul_eq_mul_right pageSize_pos (by rw [← hpa, ← hpa', hp])
  have hee := ho.resident_inj (hl _ (Layout.indexIn_lt_npages hw hc))
    (hl _ (Layout.indexIn_lt_npages hw hc')) hf hf'
  obtain ⟨rfl, hpage⟩ := (Layout.indexIn_inj hw hc hc').mp (PtPtr.mk.inj hee).2
  exact h.page_inj i j hi hj (by rw [he, he', hpage])

/-- An eviction of the page in frame `f` : the slot that maps it, if any, is gone. -/
theorem evict (h : TlbAgrees tlb pt p L) (hs : tlb.Shaped) (ho : FrameOwn g cm pt) (hw : L.WF)
    (hl : ∀ i < L.npages, g.live ⟨p, i⟩) {e : PtPtr} {x : PtEntry} (hle : g.live e)
    (hf : (pt e).InFrame f) :
    TlbAgrees (tlb.remove (f * pageSize)) (update pt e x) p L := by
  have hkeep : ∀ i, ((tlb.remove (f * pageSize)).slot i).valid = true →
      (tlb.remove (f * pageSize)).slot i = tlb.slot i ∧ (tlb.slot i).valid = true ∧
        (tlb.slot i).paddr ≠ f * pageSize := by
    intro i hi
    obtain ⟨heq, hfirst⟩ := Tlb.slot_remove hi
    have hv : (tlb.slot i).valid = true := by rwa [heq] at hi
    refine ⟨heq, hv, fun hp => ?_⟩
    obtain ⟨j, hji, hpj⟩ := hfirst hp
    -- The earlier match is a valid slot, since the frame is not frame 0.
    have hvj : (tlb.slot j).valid = true := by
      refine (hs j).resolve_right fun hinv => ?_
      rw [hinv] at hpj
      rcases Nat.mul_eq_zero.mp hpj.symm with h0 | h0
      · exact ho.resident_ne_zero hle hf h0
      · exact absurd h0 (by decide)
    exact hji (h.frame_inj ho hw hl hvj hv (by rw [hpj, hp]))
  refine ⟨fun i hi => ?_, fun i j hi hj he => ?_⟩
  · obtain ⟨heq, hv, hne⟩ := hkeep i hi
    obtain ⟨ty, a, f', hc, he, hf', hpa, hd⟩ := h.maps i hv
    have hee : (⟨p, L.indexIn ty a⟩ : PtPtr) ≠ e := by
      rintro rfl
      obtain rfl := hf'.unique hf
      exact hne hpa
    rw [heq]
    exact ⟨ty, a, f', hc, he, by rwa [update_of_ne hee], hpa, hd⟩
  · obtain ⟨heq, hv, -⟩ := hkeep i hi
    obtain ⟨heq', hv', -⟩ := hkeep j hj
    rw [heq, heq'] at he
    exact h.page_inj i j hv hv' he

/-- The entry of a page that is not in memory may change. -/
theorem setRow (h : TlbAgrees tlb pt p L) {e : PtPtr} {x : PtEntry}
    (he : ∀ f, ¬(pt e).InFrame f) : TlbAgrees tlb (update pt e x) p L := by
  refine ⟨fun i hi => ?_, h.page_inj⟩
  obtain ⟨ty, a, f, hc, hehi, hf, hrest⟩ := h.maps i hi
  have hne : (⟨p, L.indexIn ty a⟩ : PtPtr) ≠ e := by
    rintro rfl
    exact he f hf
  exact ⟨ty, a, f, hc, hehi, by rwa [update_of_ne hne], hrest⟩

/-- A page no valid slot maps is inserted. -/
theorem insert (h : TlbAgrees tlb pt p L) {ty : SegType} {va : ℕ} (hc : (L.seg ty).Contains va)
    (hf : (pt ⟨p, L.indexIn ty va⟩).InFrame f)
    (hno : ∀ i, (tlb.slot i).valid = true → (tlb.slot i).ehi ≠ pageFrame va) :
    TlbAgrees (tlb.insert ⟨pageFrame va, f * pageSize, !decide (ty = .text), true⟩) pt p L := by
  refine ⟨fun i hi => ?_, fun i j hi hj he => ?_⟩
  · by_cases hv : i = tlb.tlbVictim
    · subst hv
      rw [Tlb.slot_insert_self]
      exact ⟨ty, va, f, hc, rfl, hf, rfl, by simp⟩
    · rw [Tlb.slot_insert_of_ne hv] at hi ⊢
      exact h.maps i hi
  · by_cases hv : i = tlb.tlbVictim <;> by_cases hv' : j = tlb.tlbVictim
    · rw [hv, hv']
    · subst hv
      rw [Tlb.slot_insert_self, Tlb.slot_insert_of_ne hv'] at he
      rw [Tlb.slot_insert_of_ne hv'] at hj
      exact absurd he.symm (hno j hj)
    · subst hv'
      rw [Tlb.slot_insert_self, Tlb.slot_insert_of_ne hv] at he
      rw [Tlb.slot_insert_of_ne hv] at hi
      exact absurd he (hno i hi)
    · rw [Tlb.slot_insert_of_ne hv] at hi he
      rw [Tlb.slot_insert_of_ne hv'] at hj he
      exact h.page_inj i j hi hj he

/-- An empty TLB agrees with every page table. -/
theorem flushed (pt : PtPtr → PtEntry) (p : ℕ) (L : Layout) (v : Fin 64) (b : Bool) :
    TlbAgrees ⟨tlbInvalid, v, b⟩ pt p L :=
  ⟨fun i hi => (by cases hi), fun i j hi => (by cases hi)⟩

end TlbAgrees

/-! ## Faults -/

/-- The TLB calls for the fault : no valid slot maps the page, or the slot that does forbids
the write. -/
def FaultRaised (tlb : Tlb) (va : ℕ) : FaultType → Prop
  | .read | .write => ∀ i, (tlb.slot i).valid = true → (tlb.slot i).ehi ≠ pageFrame va
  | .readonly => ∃ i, (tlb.slot i).valid = true ∧ (tlb.slot i).ehi = pageFrame va ∧
      (tlb.slot i).dirty = false
  | .other => True

instance (tlb : Tlb) (va : ℕ) (ty : FaultType) : Decidable (FaultRaised tlb va ty) :=
  match ty with
  | .read => inferInstanceAs (Decidable (∀ _, _ → _))
  | .write => inferInstanceAs (Decidable (∀ _, _ → _))
  | .readonly => inferInstanceAs (Decidable (∃ _, _ ∧ _ ∧ _))
  | .other => inferInstanceAs (Decidable True)

/-- The TLB agrees with the page table of the running process. -/
def Kernel.TlbOk (k : Kernel) : Prop :=
  ∀ p pr L, k.curproc = some p → k.procs p = some pr → pr.Built L → TlbAgrees k.tlb k.pt p L

section Faults

variable {k k' : Kernel} {ty : FaultType} {va : ℕ} {write : Bool} {r : Option ℕ × Kernel}

theorem Granted.tlbOk {n b : ℕ} {e : Option PtPtr} (hg : Granted k.Live k n e b k')
    (hk : k.Inv) (ht : k.TlbOk) : k'.TlbOk := by
  intro p pr L hc hp hL
  rw [hg.curproc] at hc
  rw [hg.procs] at hp
  have h := ht p pr L hc hp hL
  have hlive : ∀ i < L.npages, k.Live ⟨p, i⟩ := fun i hi => (Kernel.live_iff hp hL.1).mpr hi
  cases hg with
  | free => exact h
  | dropped _ hl hf | swapped _ hl hf => exact h.evict hk.shaped hk.owned.frames hL.wf hlive hl hf

/-- The page of an entry that is not in memory can be brought in. -/
theorem Kernel.TlbOk.fill {e : PtPtr} {x : PtEntry} (ht : k.TlbOk)
    (he : ∀ f, ¬(k.pt e).InFrame f) (hpt : k'.pt = update k.pt e x)
    (htlb : k'.tlb = k.tlb) (hp : k'.procs = k.procs) (hc : k'.curproc = k.curproc) :
    k'.TlbOk := by
  intro p pr L hcur hpr hL
  rw [hc] at hcur
  rw [hp] at hpr
  rw [hpt, htlb]
  exact (ht p pr L hcur hpr hL).setRow he

theorem Resolved.tlbOk {L : Layout} {fp : FaultPage} (hr : Resolved L fp va k k') (hk : k.Inv)
    (ht : k.TlbOk) : k'.TlbOk := by
  cases hr with
  | reload => exact ht
  | @loaded f k₁ stats hst hgr =>
    have hno := PtEntry.not_inFrame_of_notLoaded hst
    refine (hgr.tlbOk hk ht).fill (e := fp.ptRow) ?_ rfl rfl rfl rfl
    rwa [hgr.pt_eq hno]
  | @fetched f s k₁ bm stats hslot hgr =>
    refine (hgr.tlbOk hk ht).fill (e := fp.ptRow) ?_ rfl rfl rfl rfl
    rw [hgr.pt_eq hslot.not_inFrame]
    exact hslot.not_inFrame

theorem Granted.slot_valid {n b : ℕ} {e : Option PtPtr} (hg : Granted k.Live k n e b k')
    {i : Fin 64} (hi : (k'.tlb.slot i).valid = true) : k'.tlb.slot i = k.tlb.slot i := by
  cases hg with
  | free => rfl
  | dropped | swapped => exact (Tlb.slot_remove hi).1

theorem Resolved.slot_valid {L : Layout} {fp : FaultPage} (hr : Resolved L fp va k k') {i : Fin 64}
    (hi : (k'.tlb.slot i).valid = true) : k'.tlb.slot i = k.tlb.slot i := by
  cases hr with
  | reload => rfl
  | loaded _ _ hgr => exact hgr.slot_valid hi
  | fetched _ _ hgr => exact hgr.slot_valid hi

theorem FaultPost.tlbOk {r : FaultResult × Kernel} (h : FaultPost k ty va r) (hk : k.Inv)
    (ht : k.TlbOk) (hraised : FaultRaised k.tlb va ty) : r.2.TlbOk := by
  match r, h with
  | (.ret (some e), _), ⟨_, hr⟩ =>
    subst hr
    exact ht
  | (.exit status, _), ⟨_, hr⟩ =>
    subst hr
    exact ht
  | (.ret none, _), ⟨hty, L, fp, k₁, stats, hat, hres, hr⟩ =>
    subst hr
    have hno : ∀ i, (k.tlb.slot i).valid = true → (k.tlb.slot i).ehi ≠ pageFrame va := by
      rcases hty with rfl | rfl <;> exact hraised
    intro p pr L' hc hp hL'
    have hc' : k₁.curproc = some p := hc
    have hp' : k₁.procs p = some pr := hp
    have hagree := hres.tlbOk hk ht p pr L' hc' hp' hL'
    -- The fault is one of the running process.
    obtain rfl : fp.p = p := by
      rw [hres.procs.2] at hc'
      exact Option.some.inj (hat.curproc.symm.trans hc')
    obtain rfl : fp.proc = pr := by
      rw [hres.procs.1] at hp'
      exact Option.some.inj (hat.proc.symm.trans hp')
    obtain rfl := hat.built.1.unique hL'.1
    have hin := hres.inFrame
    rw [hat.ptRow] at hin
    refine hagree.insert (Layout.contains_of_segType hat.segType) ?_ ?_
    · rw [hat.ptRow]
      exact hin
    · intro i hi
      have heq := hres.slot_valid hi
      rw [heq] at hi ⊢
      exact hno i hi

/-- The processor raises the faults the TLB calls for. -/
theorem raised_of_translate {tlb : Tlb} (hs : tlb.Shaped) (hva : va < userspacetop)
    (h : tlb.translate write va = .inl ty) : FaultRaised tlb va ty := by
  unfold Tlb.translate at h
  cases hp : tlb.probe va with
  | none =>
    have hno : ∀ i, (tlb.slot i).valid = true → (tlb.slot i).ehi ≠ pageFrame va := by
      intro i _ he
      have := List.find?_eq_none.mp hp i (List.mem_finRange i)
      simp [he] at this
    rw [hp] at h
    obtain rfl := Sum.inl.inj h
    cases write <;> exact hno
  | some i =>
    obtain ⟨hv, he⟩ := hs.valid_of_probe hva hp
    rw [hp] at h
    simp only [hv, Bool.true_eq_false, if_false] at h
    split_ifs at h with hd
    obtain rfl := Sum.inl.inj h
    exact ⟨i, hv, he, hd.2⟩

theorem Attempt.tlbOk (h : Attempt write va k k') (hk : k.Inv) (ht : k.TlbOk)
    (hva : va < userspacetop) : k'.TlbOk := by
  rcases h with rfl | ⟨ty, htr, hf⟩
  · exact ht
  · exact hf.tlbOk (hk.hit _).inv ht (raised_of_translate hk.shaped hva htr)

theorem Attempt.curproc (h : Attempt write va k k') : k'.curproc = k.curproc := by
  rcases h with rfl | ⟨ty, -, -, L, fp, k₁, stats, -, hres, hr⟩
  · rfl
  · subst hr
    exact hres.procs.2

theorem AccessPost.curproc (h : AccessPost write va k r) :
    r.2.curproc = k.curproc ∨ r.2.curproc = none := by
  match r, h with
  | (some pa, k'), ⟨hatt, _⟩ => exact Or.inl hatt.curproc
  | (none, k'), ⟨k₁, ty, status, hatt, _, _, hr⟩ =>
    subst hr
    exact Or.inr rfl

theorem AccessPost.tlbOk (h : AccessPost write va k r)
    (hk : k.Inv) (ht : k.TlbOk) (hva : va < userspacetop) : r.2.TlbOk := by
  match r, h with
  | (some pa, k'), ⟨hatt, _⟩ => exact hatt.tlbOk hk ht hva
  | (none, k'), ⟨k₁, ty, status, hatt, _, _, hr⟩ =>
    subst hr
    intro p pr L hc
    cases hc

end Faults

/-! ## Runs -/

/-- No two segments of the program lie on one page. -/
def Vnode.PagesDisjoint (v : Vnode) : Prop :=
  ∀ t d, (elfHeaders v).1 = [t, d] → (fileLayout t d).PagesDisjoint

/-- The programs have segments that share no page, and a fault is raised only when the TLB
calls for it. -/
def Sys.Disciplined (s : Sys) : Event → Prop
  | .built _ v => v.PagesDisjoint
  | .faulted ty va _ => FaultRaised s.kernel.tlb va ty
  | _ => True

theorem Proc.Built.pagesDisjoint {pr : Proc} {L : Layout} (h : pr.Built L)
    (hv : pr.pVnode.PagesDisjoint) : L.PagesDisjoint := by
  obtain ⟨-, t, d, hh, -, -, -, -, rfl⟩ := h
  exact hv t d (by rw [hh])

/-- The invariant of runs in which faults are raised by the processor. -/
structure Sys.TlbInv (s : Sys) : Prop where
  inv : s.Inv
  tlbOk : s.kernel.TlbOk
  disjoint : ∀ p pr, s.kernel.procs p = some pr → pr.pVnode.PagesDisjoint
  current : ∀ p, s.kernel.curproc = some p → (s.kernel.procs p).isSome

namespace Sys

variable {s s' : Sys} {ev : Event} {ramsize firstfree : ℕ}

theorem Boot.tlbInv (h : Boot ramsize firstfree s) : s.TlbInv := by
  refine ⟨h.inv, ?_, ?_, ?_⟩
  all_goals obtain ⟨cm, ram, swapfile, ioError, -, -, rfl⟩ := h
  · intro p pr L hc
    cases hc
  · intro p pr hp
    cases hp
  · intro p hc
    cases hc

/-- Processes are not touched. -/
theorem TlbInv.of_keeps {k' : Kernel} (hs : s.TlbInv) (hinv : Inv { s with kernel := k' })
    (ht : k'.TlbOk) (hp : k'.procs = s.kernel.procs)
    (hc : k'.curproc = s.kernel.curproc ∨ k'.curproc = none) : TlbInv { s with kernel := k' } := by
  refine ⟨hinv, ht, ?_, ?_⟩
  · intro p pr hpr
    rw [hp] at hpr
    exact hs.disjoint p pr hpr
  · intro p hcur
    rcases hc with hc | hc
    · rw [hc] at hcur
      rw [hp]
      exact hs.current p hcur
    · rw [hc] at hcur
      cases hcur

theorem tlbOk_asActivate {k : Kernel} (h : ∀ p, k.curproc = some p → (k.procs p).isSome) :
    (asActivate k).TlbOk := by
  intro p pr L hc hp hL
  have hcur : k.curproc = some p := by
    unfold asActivate at hc
    split at hc <;> exact hc
  obtain ⟨pr', hpr'⟩ := Option.isSome_iff_exists.mp (h p hcur)
  have hflush : asActivate k = tlbInvalidate k := by
    rw [asActivate, hcur]
    simp [hpr']
  rw [hflush]
  exact TlbAgrees.flushed _ _ _ _ _

theorem asActivate_procs (k : Kernel) :
    (asActivate k).procs = k.procs ∧ (asActivate k).curproc = k.curproc := by
  obtain ⟨tlb, stats, htlb⟩ := asActivate_eq k
  rw [htlb]
  exact ⟨rfl, rfl⟩

/-- A step of the disciplined system keeps the TLB in agreement. -/
theorem step_tlbInv (hs : s.TlbInv) (h : s.Step ev s') (hd : s.Disciplined ev) : s'.TlbInv := by
  have hinv' := step_inv hs.inv h
  obtain ⟨op, hal, hpost⟩ := step_cases hs.inv h
  cases op with
  | build p v =>
    rcases hpost with ⟨as, L, rfl, hL, rfl⟩ | ⟨e, rfl, rfl⟩
    · refine ⟨hinv', fun q pr L' _ _ _ => TlbAgrees.flushed _ _ _ _ _, ?_, ?_⟩
      · intro q pr hpr
        by_cases hq : q = p
        · subst hq
          simp only [Kernel.build, update_self, Option.some.injEq] at hpr
          subst hpr
          exact hd
        · exact hs.disjoint q pr (by simpa [Kernel.build, hq] using hpr)
      · intro q hq
        obtain rfl : p = q := Option.some.inj hq
        simp [Kernel.build]
    · exact hs.of_keeps hinv' (fun _ _ _ hc => by cases hc) rfl (Or.inr rfl)
  | destroy p =>
    obtain ⟨rfl, k₁, he, rfl, -⟩ := hpost
    have hold : ∀ q pr, update s.kernel.procs p none q = some pr →
        s.kernel.procs q = some pr := by
      intro q pr hpr
      by_cases hq : q = p
      · simp [hq] at hpr
      · simpa [hq] using hpr
    refine ⟨hinv', ?_, fun q pr hpr => hs.disjoint q pr (hold q pr hpr), ?_⟩
    · intro q pr L hc hpr hL
      rw [he.curproc] at hc
      rw [he.tlb, he.pt]
      exact hs.tlbOk q pr L hc (hold q pr hpr) hL
    · intro q hc
      rw [he.curproc] at hc
      have hq : q ≠ p := by
        rintro rfl
        exact hal.2 hc
      change (update s.kernel.procs p none q).isSome
      rw [update_of_ne hq]
      exact hs.current q hc
  | switch p =>
    obtain ⟨rfl, rfl⟩ := hpost
    have hcur : ∀ q, (({ s.kernel with curproc := p } : Kernel).curproc = some q) →
        (s.kernel.procs q).isSome := by
      rintro q rfl
      exact hal
    have hproc := asActivate_procs { s.kernel with curproc := p }
    refine ⟨hinv', tlbOk_asActivate hcur, ?_, ?_⟩
    · intro q pr hpr
      rw [hproc.1] at hpr
      exact hs.disjoint q pr hpr
    · intro q hq
      rw [hproc.2] at hq
      rw [hproc.1]
      exact hcur q hq
  | allocKpages n =>
    obtain ⟨b, k', h0, hgr, rfl, rfl⟩ := hpost
    have hok : k'.TlbOk := hgr.tlbOk hs.inv.kernel hs.tlbOk
    refine ⟨hinv', hok, ?_, ?_⟩
    · intro q pr hpr
      rw [hgr.procs] at hpr
      exact hs.disjoint q pr hpr
    · intro q hq
      rw [hgr.curproc] at hq
      rw [hgr.procs]
      exact hs.current q hq
  | freeKpages addr =>
    obtain ⟨rfl, b, -, -, rfl⟩ := hpost
    exact ⟨hinv', hs.tlbOk, hs.disjoint, hs.current⟩
  | fault ty va =>
    obtain ⟨r, k', hf, rfl, rfl⟩ := hpost
    have hok := hf.tlbOk (hs.inv.kernel.hit _).inv hs.tlbOk hd
    obtain ⟨-, hp, hc⟩ := hf.owned ⟨hs.inv.kernel.owned.frames, hs.inv.kernel.owned.slots⟩
    cases r with
    | ret e => exact hs.of_keeps hinv' hok hp (Or.inl hc)
    | exit status => exact hs.of_keeps hinv' (fun _ _ _ hc => by cases hc) hp (Or.inr rfl)
  | load va =>
    obtain ⟨r, k', hva, hacc, rfl, -⟩ := hpost
    exact hs.of_keeps hinv' (hacc.tlbOk hs.inv.kernel hs.tlbOk hva)
      (hacc.keeps hs.inv.kernel).procs hacc.curproc
  | store va b =>
    obtain ⟨r, k', hva, hacc, hr⟩ := hpost
    have hok := hacc.tlbOk hs.inv.kernel hs.tlbOk hva
    have hp := (hacc.keeps hs.inv.kernel).procs
    cases r with
    | none | some pa =>
      obtain ⟨-, rfl⟩ := hr
      exact hs.of_keeps hinv' hok hp hacc.curproc

theorem run_tlbInv {s₀ : Sys} {tr : List Event}
    (hb : Boot ramsize firstfree s₀) (hr : Run (guarded Disciplined Step) s₀ tr s) : s.TlbInv :=
  hr.invariant hb.tlbInv fun _ _ _ hi hs => step_tlbInv hi hs.1 hs.2

end Sys

/-- The TLB is right for process `p` : a valid slot maps a page of `p` that is in memory to
its frame; it allows writes exactly when the page is not in the text segment; no page and no
frame is mapped twice. -/
structure TlbRight (k : Kernel) (p : ℕ) (L : Layout) : Prop where
  maps : ∀ i, (k.tlb.slot i).valid = true → ∃ ty a f, L.segType a = some ty ∧
    (k.tlb.slot i).ehi = pageFrame a ∧ (k.pt ⟨p, L.indexIn ty a⟩).InFrame f ∧
    (k.tlb.slot i).paddr = f * pageSize
  dirty : ∀ i, (k.tlb.slot i).valid = true → ∀ a ty, L.segType a = some ty →
    (k.tlb.slot i).ehi = pageFrame a → ((k.tlb.slot i).dirty = true ↔ ty ≠ .text)
  page_inj : ∀ i j, (k.tlb.slot i).valid = true → (k.tlb.slot j).valid = true →
    (k.tlb.slot i).ehi = (k.tlb.slot j).ehi → i = j
  frame_inj : ∀ i j, (k.tlb.slot i).valid = true → (k.tlb.slot j).valid = true →
    (k.tlb.slot i).paddr = (k.tlb.slot j).paddr → i = j

/-- In every run in which programs have segments that share no page and the processor raises
the faults, the TLB is right for the running process. -/
theorem tlb_right_of_run {ramsize firstfree : ℕ} {s₀ s : Sys} {tr : List Event}
    (hb : Sys.Boot ramsize firstfree s₀) (hr : Run (guarded Sys.Disciplined Sys.Step) s₀ tr s)
    {p : ℕ} (hp : s.kernel.curproc = some p) :
    ∃ pr L, s.kernel.procs p = some pr ∧ pr.pAddrspace.Has L ∧ TlbRight s.kernel p L := by
  have hs := Sys.run_tlbInv hb hr
  obtain ⟨pr, hpr⟩ := Option.isSome_iff_exists.mp (hs.current p hp)
  obtain ⟨L, hL⟩ := hs.inv.kernel.procs p pr hpr
  have hdis := hL.pagesDisjoint (hs.disjoint p pr hpr)
  have h := hs.tlbOk p pr L hp hpr hL
  have hlive : ∀ i < L.npages, s.kernel.Live ⟨p, i⟩ := fun i hi =>
    (Kernel.live_iff hpr hL.1).mpr hi
  refine ⟨pr, L, hpr, hL.1, fun i hi => ?_, fun i hi a ty hty he => ?_, h.page_inj, fun i j hi hj =>
    h.frame_inj hs.inv.kernel.owned.frames hL.wf hlive hi hj⟩
  · obtain ⟨ty, a, f, hc, he, hf, hpa, -⟩ := h.maps i hi
    exact ⟨ty, a, f, Layout.segType_of_contains hdis hc, he, hf, hpa⟩
  · obtain ⟨ty', a', f, hc, he', -, -, hd⟩ := h.maps i hi
    obtain rfl := hdis ty ty' a a' (Layout.contains_of_segType hty) hc (he.symm.trans he')
    exact hd

/-! ## Disciplined runs of the small machine -/

namespace Sys

variable {s s' : Sys}

theorem smallFile_pagesDisjoint : smallFile.PagesDisjoint := by
  intro t d h
  have hh : (elfHeaders smallFile).1 =
      [⟨1, 116, 0x400000, 4, 4⟩, ⟨1, 120, 0x10000000, 4, 16⟩] := by decide +kernel
  rw [hh] at h
  obtain ⟨rfl, rfl⟩ := h
  rintro (_ | _ | _) (_ | _ | _) a b ha hb hab
  all_goals
    first
    | rfl
    | have h1 := lt_add_of_pageFrame_eq hab
      have h2 := lt_add_of_pageFrame_eq hab.symm
      simp only [Segment.Contains, Layout.seg, fileLayout, ElfPhdr.segment, stackSegment,
        word32, userstack, vmStackpages, userspacetop, mipsKseg0, pageSize] at ha hb h1 h2
      omega

/-- What an operation does is disciplined if the programs it builds and the faults it raises
are. -/
theorem disciplined_of_exec {op : SysOp} {ev : Event}
    (h : s.exec op = .ok (ev, s')) (hb : ∀ p v, op = .build p v → v.PagesDisjoint)
    (hf : ∀ ty va, op = .fault ty va → FaultRaised s.kernel.tlb va ty) : s.Disciplined ev := by
  cases op with
  | build p v =>
    obtain ⟨⟨e, k⟩, -, h⟩ := bind_eq_ok.mp h
    cases e <;> cases h
    · exact hb p v rfl
    · trivial
  | destroy p =>
    obtain ⟨k, -, h⟩ := bind_eq_ok.mp h
    cases h
    trivial
  | switch p =>
    cases h
    trivial
  | allocKpages n =>
    obtain ⟨⟨a, k⟩, -, h⟩ := bind_eq_ok.mp h
    cases h
    trivial
  | freeKpages a =>
    obtain ⟨k, -, h⟩ := bind_eq_ok.mp h
    cases h
    trivial
  | fault ty va =>
    obtain ⟨⟨r, k⟩, -, h⟩ := bind_eq_ok.mp h
    cases r <;> cases h <;> exact hf ty va rfl
  | load va | store va b =>
    obtain ⟨⟨r, k⟩, -, h⟩ := bind_eq_ok.mp h
    cases r <;> cases h <;> trivial

/-- The operations of the small machine : every program is `smallFile`, and faults are
raised when the TLB calls for them. -/
def nextSmall (s : Sys) : SysOp → Option (Event × Sys)
  | .build p _ => s.next (.build p smallFile)
  | .fault ty va => if FaultRaised s.kernel.tlb va ty then s.next (.fault ty va) else none
  | op => s.next op

theorem guarded_of_nextSmall {op : SysOp} {ev : Event}
    (h : s.nextSmall op = some (ev, s')) : guarded Disciplined Step s ev s' := by
  cases op with
  | build p v =>
    obtain ⟨hal, he⟩ := exec_of_next h
    refine ⟨⟨_, hal, he⟩, disciplined_of_exec he ?_ (by simp)⟩
    rintro _ _ ⟨-, rfl⟩
    exact smallFile_pagesDisjoint
  | fault ty va =>
    simp only [nextSmall] at h
    split_ifs at h with hf
    obtain ⟨hal, he⟩ := exec_of_next h
    refine ⟨⟨_, hal, he⟩, disciplined_of_exec he (by simp) ?_⟩
    rintro _ _ ⟨-, rfl⟩
    exact hf
  | _ =>
    obtain ⟨hal, he⟩ := exec_of_next h
    exact ⟨⟨_, hal, he⟩, disciplined_of_exec he (by simp) (by simp)⟩

end Sys

/-- With two frames left for user pages, a load, a fault and two stores to three pages evict
one of them. -/
theorem tlb_right_of_run_small : ∃ tr s, Run (guarded Sys.Disciplined Sys.Step) (.small 4) tr s ∧
    tr.length = 5 ∧ ∃ pr L, s.kernel.procs 1 = some pr ∧ pr.pAddrspace.Has L ∧
      TlbRight s.kernel 1 L := by
  obtain ⟨tr, s, hrun, hlen, hcur⟩ := Run.exists_of_execute Sys.nextSmall Sys.guarded_of_nextSmall
    (.small 4) [.build 1 Sys.smallFile, .load 0x400002, .fault .write 0x10000001,
      .store 0x10000001 7, .store 0x7ffffff0 9]
    (fun tr s => tr.length = 5 ∧ s.kernel.curproc = some 1) (by decide +kernel)
  exact ⟨tr, s, hrun, hlen,
    tlb_right_of_run (Sys.small_boot (by decide) (by decide)) hrun hcur⟩

end OS161
