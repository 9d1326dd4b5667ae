import OS161.InFlight

/-!
# Runs of the concurrent system

What a thread does until it sleeps or returns (`Ran`) keeps the invariant `InFlight`, as
long as it takes no frame from a page that is being read in : `requestBegin_spec`,
`faultBegin_spec` and `wake_spec`. With the destruction of an address space none of whose
pages is on its way to swap this makes `Conc.Inv` an invariant of every guarded run
(`Conc.run_inv`).
-/

namespace OS161

open Function

/-! ## What a thread leaves alone -/

theorem Coremap.KernelBlock.same {cm cm' : Coremap} {h : ℕ} (hb : cm.KernelBlock h)
    (hs : cm.SameBlocks cm') : cm'.KernelBlock h :=
  ⟨hs.nRamFrames ▸ hb.lt, hb.ne_zero, by rw [hs.used, hb.used], by rw [hs.size]; exact hb.size,
    by rw [hs.owner, hb.owner]⟩

/-- What holds of every part of a thread's work : processes and blocks of the kernel stay,
only entries of live tables are written, and a frame that is locked keeps its lock and its
owner, apart from a frame `own` the thread itself has locked. -/
structure Kernel.Advance (own : Option ℕ) (k k' : Kernel) : Prop where
  procs : k'.procs = k.procs
  curproc : k'.curproc = k.curproc
  blocks : ∀ h, k.coremap.KernelBlock h → k'.coremap.KernelBlock h
  pt : ∀ e, k'.pt e ≠ k.pt e → k.Live e
  kept : ∀ f, k.coremap.locked f = true → own ≠ some f →
    k'.coremap.locked f = true ∧ k'.coremap.owner f = k.coremap.owner f

namespace Kernel.Advance

variable {own : Option ℕ} {k k' k'' : Kernel} {b n f s : ℕ} {e : PtPtr} {e₀ : Option PtPtr}

/-- The blocks stay, and no entry is written. -/
theorem of_same (hcm : k'.coremap = k.coremap) (hpt : k'.pt = k.pt)
    (hp : k'.procs = k.procs) (hc : k'.curproc = k.curproc) : k.Advance own k' := by
  refine ⟨hp, hc, fun _ hb => hcm ▸ hb, fun e he => absurd (by rw [hpt]) he, fun f hl _ => ?_⟩
  rw [hcm]
  exact ⟨hl, rfl⟩

/-- The blocks stay, and at most one entry is written, of a live table. -/
theorem setPt {x : PtEntry} (hl : k.Live e) (hpt : k'.pt = update k.pt e x)
    (hcm : k.coremap.SameBlocks k'.coremap)
    (hlock : ∀ f, k.coremap.locked f = true → own ≠ some f → k'.coremap.locked f = true)
    (hp : k'.procs = k.procs) (hc : k'.curproc = k.curproc) : k.Advance own k' := by
  refine ⟨hp, hc, fun _ hb => hb.same hcm, fun e' he' => ?_,
    fun f hf hne => ⟨hlock f hf hne, congrFun hcm.owner f⟩⟩
  by_cases hee : e' = e
  · rwa [hee]
  · rw [hpt, update_of_ne hee] at he'
    exact absurd rfl he'

theorem trans (h : k.Advance own k') (h' : k'.Advance none k'') : k.Advance own k'' := by
  refine ⟨h'.procs.trans h.procs, h'.curproc.trans h.curproc,
    fun b hb => h'.blocks b (h.blocks b hb),
    fun e he => ?_, fun f hf hne => ?_⟩
  · by_cases hk : k'.pt e = k.pt e
    · have := h'.pt e (by rwa [hk])
      rwa [show k'.Live = k.Live by funext e; simp only [Kernel.Live, h.procs]] at this
    · exact h.pt e hk
  · obtain ⟨h1, h2⟩ := h.kept f hf hne
    obtain ⟨h3, h4⟩ := h'.kept f h1 (by simp)
    exact ⟨h3, h4.trans h2⟩

/-- The frame of a page is taken, which is not locked. -/
theorem take_owned (ho : (k.coremap.owner f).isSome) (hl : k.coremap.locked f = false) :
    k.Advance none (k.take f 1 e₀) := by
  refine ⟨rfl, rfl, fun h hb => ?_, fun e he => absurd rfl he, fun f' hf' _ => ?_⟩
  · have hne : h ≠ f := by
      rintro rfl
      rw [hb.owner] at ho
      cases ho
    have hin : ¬(f ≤ h ∧ h < f + 1) := by omega
    refine ⟨hb.lt, hb.ne_zero, ?_, ?_, ?_⟩
    · rw [Kernel.take, Coremap.used_mark, if_neg hin, hb.used]
    · rw [Kernel.take, Coremap.size_mark, if_neg hne]
      exact hb.size
    · rw [Kernel.take, Coremap.owner_mark, if_neg hin, hb.owner]
  · have hne : f' ≠ f := by
      rintro rfl
      rw [hl] at hf'
      cases hf'
    rw [Kernel.take, Coremap.locked_mark, Coremap.owner_mark, if_neg (by omega)]
    exact ⟨hf', rfl⟩

theorem take_free (hrun : k.coremap.FreeRun n b) (hn : 0 < n)
    (hl : ∀ f, k.coremap.locked f = true → k.coremap.used f = true ∨ k.coremap.nRamFrames ≤ f) :
    k.Advance none (k.take b n e₀) := by
  refine ⟨rfl, rfl, fun h hb => ?_, fun e he => absurd rfl he, fun f hf _ => ?_⟩
  · have hin : ¬(b ≤ h ∧ h < b + n) := by
      rintro ⟨h1, h2⟩
      have := hb.used
      rw [hrun.2 h h1 h2] at this
      cases this
    refine ⟨hb.lt, hb.ne_zero, ?_, ?_, ?_⟩
    · rw [Kernel.take, Coremap.used_mark, if_neg hin, hb.used]
    · rw [Kernel.take, Coremap.size_mark, if_neg (by omega)]
      exact hb.size
    · rw [Kernel.take, Coremap.owner_mark, if_neg hin, hb.owner]
  · have hin : ¬(b ≤ f ∧ f < b + n) := by
      rintro ⟨h1, h2⟩
      have hend := hrun.1
      rcases hl f hf with hu | hge
      · rw [hrun.2 f h1 h2] at hu
        cases hu
      · omega
    rw [Kernel.take, Coremap.locked_mark, Coremap.owner_mark, if_neg hin]
    exact ⟨hf, rfl⟩

end Kernel.Advance

/-! ## Getting a frame -/

section Request

variable {g : Ghost} {k : Kernel} {sleep : ℕ → Option Sleep} {t n : ℕ} {e₀ : Option PtPtr}

/-- The victim `coremap_swapout` would take is not being read in. -/
def VictimSafe (k : Kernel) (sleep : ℕ → Option Sleep) : Prop :=
  ∀ f, k.Chosen f → ¬Reading sleep f

/-- What `coremap_getppages` does before it gives up the spinlock. -/
def GetFlight (g : Ghost) (k : Kernel) (sleep : ℕ → Option Sleep) (n : ℕ) (e : Option PtPtr) :
    GetState × Kernel → Prop
  | (.done b, k') => k.Advance none k' ∧ Got g k' sleep b e ∧ ¬k.coremap.KernelBlock b ∧
      (b ≠ 0 → e = none → k'.coremap.KernelBlock b) ∧
      ∀ e', (∀ f, ¬(k.pt e').InFrame f) → k'.pt e' = k.pt e'
  | (.writing f s, k') => n = 1 ∧ ∃ e' bm, Victim g k f e' ∧ ¬Reading sleep f ∧
      AllocPost k.swap.swapmap (some (s, bm)) ∧ k' = k.startOut f s bm

/-- Frames the kernel took are a block. -/
theorem Kernel.kernelBlock_take {b : ℕ} (hn : 0 < n) (hlt : n < 2 ^ 20)
    (hb : b < k.coremap.nRamFrames) (h0 : b ≠ 0) : (k.take b n none).coremap.KernelBlock b := by
  refine ⟨hb, h0, ?_, ?_, ?_⟩
  · rw [Kernel.take, Coremap.used_mark, if_pos (by omega)]
  · rw [Kernel.take, Coremap.size_mark, if_pos rfl, Nat.mod_eq_of_lt hlt]
    exact hn
  · rw [Kernel.take, Coremap.owner_mark, if_pos (by omega)]

theorem coremapGetBegin_flight (h : InFlight g k sleep) (hn : 0 < n) (he : e₀.isSome → n = 1)
    (hv : VictimSafe k sleep) :
    Meets Halt.Resource (GetFlight g k sleep n e₀) (coremapGetBegin k n e₀) := by
  have hless : Victimless g k := fun f hc hlim => hv f hc (h.reading_of_limbo hlim)
  refine (coremapGetBegin_spec h.owned hn hless e₀).mono ?_
  rintro ⟨st, k'⟩ hpost
  cases st with
  | done b =>
    rcases hpost with ⟨hrun, rfl⟩ | ⟨rfl, e', hvic, -, rfl⟩
    · have hsmall : n < 2 ^ 20 := by
        have h1 := hrun.1
        have h2 := h.owned.frames.wf.nRamFrames_le
        omega
      have hgot : Got g (k.take b n e₀) sleep b e₀ := h.take_free hrun hn he
      have hlock : ∀ f, k.coremap.locked f = true →
          k.coremap.used f = true ∨ k.coremap.nRamFrames ≤ f := fun f hf =>
        (Nat.lt_or_ge f k.coremap.nRamFrames).imp_left (h.owned.frames.used_of_locked · hf)
      refine ⟨.take_free hrun hn hlock, hgot, fun hb => ?_, fun h0 hnone => ?_, fun _ _ => rfl⟩
      · have := hb.used
        rw [hrun.2 b le_rfl (by omega)] at this
        cases this
      · subst hnone
        exact Kernel.kernelBlock_take hn hsmall hgot.lt h0
    · have hown := h.owned.frames.resident e' b hvic.live hvic.inFrame
      have hsome : (k.coremap.owner b).isSome := by rw [hown.2.2.2]; rfl
      have hlive : k.Live e' := h.live ▸ hvic.live
      have hlock := h.owned.frames.locked b hown.1
      rw [hvic.out] at hlock
      have hadv : k.Advance none (k.discard b e') :=
        .setPt hlive rfl (.setVictim k.coremap b) (fun _ hf _ => hf) rfl rfl
      have hgot : Got g ((k.discard b e').take b 1 e₀) sleep b e₀ :=
        h.take_discarded hvic (hv b hvic.chosen)
      refine ⟨hadv.trans (.take_owned hsome hlock), hgot, fun hb => ?_, fun h0 hnone => ?_,
        fun e he => update_of_ne ?_ _ _⟩
      · rw [hb.owner] at hsome
        cases hsome
      · subst hnone
        exact Kernel.kernelBlock_take Nat.one_pos (by decide) hgot.lt h0
      · rintro rfl
        exact he b hvic.inFrame
  | writing f s =>
    obtain ⟨rfl, e', bm, hvic, -, hbm, rfl⟩ := hpost
    exact ⟨rfl, e', bm, hvic, hv f hvic.chosen, hbm, rfl⟩

end Request

/-! ## Running a thread -/

/-- The TLB has an entry for the page `fp` with the frame the coremap gives it. -/
def Installed (k : Kernel) (fp : FaultPage) (va : ℕ) : Prop :=
  ∃ f i, k.coremap.OwnedBy f fp.ptRow ∧ k.tlb.slot i = fp.tlbEntry va f

/-- Where a call sleeps, if it does. -/
def Progress.sleep : Progress → Option Sleep
  | .sleeps w => some w
  | .returns _ => none

/-- What a call that returns has done. -/
def Progress.Ok (k k' : Kernel) : Progress → Prop
  | .returns (.faulted fp va) => Installed k' fp va
  | .returns (.allocated paddr) => ∃ b, paddr = b * pageSize ∧ ¬k.coremap.KernelBlock b ∧
      k'.coremap.KernelBlock b
  | _ => True

/-- What a thread `t` that runs does until it sleeps or returns. The frame `own` was locked by
the thread itself. -/
structure Ran (own : Option ℕ) (t : ℕ) (k : Kernel) (sleep : ℕ → Option Sleep)
    (r : Progress × Kernel) : Prop where
  flight : ∃ g, InFlight g r.2 (update sleep t r.1.sleep)
  advance : k.Advance own r.2
  ok : r.1.Ok k r.2

section Threads

variable {g : Ghost} {k k' : Kernel} {sleep : ℕ → Option Sleep} {own : Option ℕ}
  {t b f n va : ℕ} {L : Layout} {fp : FaultPage} {swapped : Bool}

theorem Ran.of_advance {r : Progress × Kernel} (h : Ran none t k' sleep r)
    (ha : k.Advance own k') : Ran own t k sleep r := by
  refine ⟨h.flight, ha.trans h.advance, ?_⟩
  match r, h.ok with
  | (.returns (.faulted fp va), _), hok => exact hok
  | (.returns (.allocated paddr), _), ⟨b, hb, hn, hok⟩ =>
    exact ⟨b, hb, fun hk => hn (ha.blocks b hk), hok⟩
  | (.returns (.refused r), _), _ => trivial
  | (.sleeps w, _), _ => trivial

/-- A fault returns with its page in memory. -/
theorem faultReturn_spec (h : InFlight g k (update sleep t none)) (hl : k.Live fp.ptRow)
    (hf : (k.pt fp.ptRow).InFrame f) :
    Meets Halt.Resource (fun r => Ran none t k sleep r ∧ r.2.coremap = k.coremap ∧ r.2.pt = k.pt)
      (faultReturn k fp va) := by
  obtain ⟨stats, hins⟩ := faultInsert_eq k fp va
  rw [faultReturn, hins, ok_bind, hf.2]
  refine ⟨⟨⟨g, h.congr rfl rfl rfl rfl⟩, .of_same rfl rfl rfl rfl, f, k.tlb.tlbVictim, ?_, ?_⟩, rfl,
    rfl⟩
  · exact h.owned.frames.resident _ f (h.live ▸ hl) hf
  · exact update_self ..

/-- The coremap stays, and so do all entries but `e`. -/
def SameBut (e : Option PtPtr) (k k' : Kernel) : Prop :=
  k'.coremap = k.coremap ∧ ∀ e', e ≠ some e' → k'.pt e' = k.pt e'

/-- A fault goes on with the frame it was granted. -/
theorem faultRead_spec (h : Got g k sleep b (some fp.ptRow)) (ht : sleep t = none) (hp : fp.p = t)
    (hL : k.Faulting L fp va)
    (hst : (k.pt fp.ptRow).ptStatus = if swapped then .inSwap else .notLoaded) :
    Meets Halt.Resource (fun r => Ran none t k sleep r ∧ SameBut (some fp.ptRow) k r.2)
      (faultRead k fp va (b * pageSize) swapped) := by
  have hlt : b < 2 ^ 20 := by
    have h1 := h.lt
    have h2 := h.owned.frames.wf.nRamFrames_le
    omega
  unfold faultRead
  cases swapped with
  | false =>
    obtain ⟨stats, hbegin⟩ := faultLoadBegin_eq k hL hlt
    rw [hbegin, ok_bind]
    have hset := h.load (w := none) ht hp hL hst (by simp) stats
    have hadv : k.Advance none { k with
        pt := update k.pt fp.ptRow ⟨b, 0, fp.segType.resident⟩
        vmstats := stats } := .setPt hL.live rfl (.refl _) (fun _ hf _ => hf) rfl rfl
    have hpt : ∀ e', some fp.ptRow ≠ some e' →
        update k.pt fp.ptRow ⟨b, 0, fp.segType.resident⟩ e' = k.pt e' :=
      fun e' he' => update_of_ne (fun h => he' (by rw [h])) _ _
    cases hplan : fp.plan L va b with
    | none =>
      refine (faultReturn_spec hset (f := b) hL.live ?_).mono ?_
      · simpa only [update_self] using fp.segType.resident_inFrame b 0
      · rintro r ⟨hr, hcm, hpt'⟩
        refine ⟨hr.of_advance hadv, hcm, ?_⟩
        rw [hpt']
        exact hpt
    | some plan =>
      refine ⟨⟨⟨g, h.load ht hp hL hst ?_ stats⟩, hadv, trivial⟩, rfl, hpt⟩
      intro x hx
      exact ⟨plan, (Option.some.inj hx).symm, hplan⟩
  | true =>
    have hs : (k.pt fp.ptRow).InSlot (k.pt fp.ptRow).ptSwapIndex := ⟨hst, rfl⟩
    have hlive : g.live fp.ptRow := h.live ▸ hL.live
    obtain ⟨hlt, hm⟩ := h.owned.slots.marked_of_inSlot hlive hs
    dsimp only
    rw [swapInBegin_eq b hlt hm, ok_bind]
    exact ⟨⟨⟨_, (h.swapIn ht hp hL hs).congr rfl rfl rfl rfl⟩, .of_same rfl rfl rfl rfl, trivial⟩,
      rfl, fun _ _ => rfl⟩

theorem requestEnd_spec {req : Request} (h : Got g k' sleep b req.ptentry) (ht : sleep t = none)
    (ha : k.Advance own k') (hreq : k'.RequestOk t req) (hnew : ¬k.coremap.KernelBlock b)
    (hblock : b ≠ 0 → req.ptentry = none → k'.coremap.KernelBlock b) :
    Meets Halt.Resource (fun r => Ran own t k sleep r ∧ SameBut req.ptentry k' r.2)
      (requestEnd k' (b * pageSize) req) := by
  unfold requestEnd checkPpages
  split_ifs with h0
  · exact trivial
  have hb : b ≠ 0 := by
    rintro rfl
    exact h0 (Nat.zero_mul _)
  cases req with
  | kernel =>
    refine ⟨⟨⟨g, ?_⟩, ha, b, rfl, hnew, hblock hb rfl⟩, rfl, fun _ _ => rfl⟩
    change InFlight g k' (update sleep t none)
    rw [← ht, update_eq_self]
    exact h.kernel
  | page fp va swapped =>
    obtain ⟨hp, ⟨L, hL⟩, hst⟩ := hreq
    exact (faultRead_spec h ht hp hL hst).mono fun r hr => ⟨hr.1.of_advance ha, hr.2⟩

/-- A thread asks for frames. -/
theorem requestBegin_spec {req : Request} (h : InFlight g k sleep) (ht : sleep t = none)
    (hn : 0 < n) (he : req.ptentry.isSome → n = 1) (hv : VictimSafe k sleep)
    (hreq : k.RequestOk t req) :
    Meets Halt.Resource (Ran none t k sleep) (requestBegin k n req) := by
  refine (coremapGetBegin_flight h hn he hv).bind ?_
  rintro ⟨st, k'⟩ hpost
  cases st with
  | done b =>
    obtain ⟨ha, hgot, hnew, hblock, hpt⟩ := hpost
    have hreq' : k'.RequestOk t req :=
      hreq.congr (by rw [ha.procs]) fun e he' => hpt e fun f => hreq.not_inFrame he'
    exact (requestEnd_spec hgot ht ha hreq' hnew hblock).mono fun r hr => hr.1
  | writing f s =>
    obtain ⟨rfl, e', bm, hvic, hr, hbm, rfl⟩ := hpost
    refine ⟨⟨_, h.startOut ht hvic hr hbm (hreq.congr rfl fun _ _ => rfl)⟩,
      ⟨rfl, rfl, fun b hb => ?_, fun e he' => absurd rfl he', fun f' hf' _ => ⟨?_, ?_⟩⟩, trivial⟩
    · exact hb.same (.setLock (.setVictim k.coremap f) f true)
    · change (Coremap.setLock _ f true).locked f' = true
      rw [Coremap.locked_setLock]
      split_ifs
      · rfl
      · exact hf'
    · exact Coremap.owner_setLock

theorem faultSwitch_spec (h : InFlight g k sleep) (ht : sleep t = none) (hp : fp.p = t)
    (hL : k.Faulting L fp va) (hv : (∀ f, ¬(k.pt fp.ptRow).InFrame f) → VictimSafe k sleep) :
    Meets Halt.Resource (Ran none t k sleep) (faultSwitch k fp va) := by
  have hidle : InFlight g (vmstatsHit k .tlbReload) (update sleep t none) := by
    rw [← ht, update_eq_self]
    exact h.congr rfl rfl rfl rfl
  have hadv : k.Advance none (vmstatsHit k .tlbReload) := .of_same rfl rfl rfl rfl
  have hreturn : (k.pt fp.ptRow).InFrame (k.pt fp.ptRow).ptFrameIndex →
      Meets Halt.Resource (Ran none t k sleep) (faultReturn (vmstatsHit k .tlbReload) fp va) :=
    fun hf => (faultReturn_spec hidle hL.live hf).mono fun r hr => hr.1.of_advance hadv
  have hrequest : ∀ swapped, (k.pt fp.ptRow).ptStatus = (if swapped then .inSwap else .notLoaded) →
      Meets Halt.Resource (Ran none t k sleep) (requestBegin k 1 (.page fp va swapped)) := by
    intro swapped hst
    have hreq : k.RequestOk t (.page fp va swapped) := ⟨hp, ⟨L, hL⟩, hst⟩
    exact requestBegin_spec h ht Nat.one_pos (fun _ => rfl) (hv fun f => hreq.not_inFrame rfl) hreq
  unfold faultSwitch
  cases hst : (k.pt fp.ptRow).ptStatus with
  | notLoaded => exact hrequest false hst
  | inMemory => exact hreturn ⟨Or.inl hst, rfl⟩
  | inMemoryRdonly => exact hreturn ⟨Or.inr hst, rfl⟩
  | inSwap => exact hrequest true hst

/-- A process faults. -/
theorem faultBegin_spec {faulttype : FaultType} (h : InFlight g k sleep) (ht : sleep t = none)
    (hcur : k.curproc = some t) (hv : k.Misses faulttype va → VictimSafe k sleep) :
    Meets Halt.Resource (Ran none t k sleep) (faultBegin k faulttype va) := by
  have hhit : InFlight g (vmstatsHit k .tlbFault) sleep := h.congr rfl rfl rfl rfl
  have hadv : k.Advance none (vmstatsHit k .tlbFault) := .of_same rfl rfl rfl rfl
  obtain ⟨r, hr, hpost⟩ := faultLookup_spec hhit.procs faulttype va
  rw [faultBegin, hr, ok_bind]
  cases r with
  | inl r =>
    refine ⟨⟨g, ?_⟩, hadv, trivial⟩
    change InFlight g _ (update sleep t none)
    rw [← ht, update_eq_self]
    exact hhit
  | inr fp =>
    obtain ⟨-, L, hL⟩ := hpost
    have hp : fp.p = t := Option.some.inj (hL.curproc.symm.trans hcur)
    have hfault : Kernel.Faulting (vmstatsHit k .tlbFault) L fp va :=
      ⟨rfl, hL.proc, hL.built, hL.segType, hL.ptRow⟩
    exact (faultSwitch_spec hhit ht hp hfault fun hno => hv ⟨fp, hr, hno⟩).mono fun r hr =>
      hr.of_advance hadv

theorem Ran.of_update {r : Progress × Kernel} {w : Option Sleep}
    (h : Ran own t k (update sleep t w) r) : Ran own t k sleep r := by
  obtain ⟨g, hg⟩ := h.flight
  rw [update_idem] at hg
  exact ⟨⟨g, hg⟩, h.advance, h.ok⟩

/-- The frame a sleeping thread has locked. -/
def Sleep.victim : Sleep → Option ℕ
  | .swapOut _ victim _ => some victim
  | _ => none

/-- A thread that wrote frame `f` to slot `s` gets the frame, and the page that was in it is
in the slot. -/
def WroteOut (k k' : Kernel) : Sleep → Prop
  | .swapOut req f s => k'.coremap.owner f = req.ptentry ∧
      ∃ e, k.coremap.owner f = some e ∧ k.Live e ∧ (k'.pt e).InSlot s
  | _ => True

/-- A thread wakes up. -/
theorem wake_spec {w : Sleep} (h : InFlight g k sleep) (ht : sleep t = some w) :
    Meets Halt.Resource (fun r => Ran w.victim t k sleep r ∧ WroteOut k r.2 w) (wake k w) := by
  cases w with
  | swapOut req f s =>
    obtain ⟨e, hl, hf, hown, hs, hgot⟩ := h.take_written ht req.ptentry
    have hlive : k.Live e := h.live ▸ hl
    have hreq : k.RequestOk t req := h.tasks t _ ht
    have hpt : ∀ e', req.ptentry = some e' → e' ≠ e := by
      rintro e' he' rfl
      exact hreq.not_inFrame he' hf
    have hfin : k.Advance (some f) (k.finishOut f s e) := by
      refine .setPt hlive rfl (.setLock (.refl _) f false) (fun f' hf' hne => ?_) rfl rfl
      change (k.coremap.setLock f false).locked f' = true
      rw [Coremap.locked_setLock, if_neg fun hff => hne (by rw [hff]), hf']
    have htake : (k.finishOut f s e).Advance none ((k.finishOut f s e).take f 1 req.ptentry) := by
      refine .take_owned ?_ ?_
      · change ((k.coremap.setLock f false).owner f).isSome
        rw [Coremap.owner_setLock, hown]
        rfl
      · change (k.coremap.setLock f false).locked f = false
        rw [Coremap.locked_setLock, if_pos rfl]
    rw [wake, coremapGetEnd_eq _ hs hown, ok_bind]
    refine (requestEnd_spec hgot (update_self ..) (hfin.trans htake) ?_ ?_ ?_).mono ?_
    · exact hreq.congr rfl fun e' he' => update_of_ne (hpt e' he') _ _
    · intro hb
      rw [hb.owner] at hown
      cases hown
    · intro h0 hnone
      rw [hnone]
      exact Kernel.kernelBlock_take Nat.one_pos (by decide) hgot.lt h0
    · rintro r ⟨hr, hcm, hsame⟩
      refine ⟨hr.of_update, by rw [hcm]; exact hgot.owner, e, hown, hlive, ?_⟩
      rw [hsame e fun he => hpt e he rfl]
      change (update k.pt e ⟨0, s, .inSwap⟩ e).InSlot s
      rw [update_self]
      exact inSlot_inSwap 0 s
  | load fp va plan =>
    obtain ⟨hp, L, f, hL, hf, -⟩ := h.tasks t _ ht
    refine (faultLoadEnd_spec k fp (some plan)).bind ?_
    rintro k' rfl
    have hidle : InFlight g { k with ram := LoadPlan.loadRam fp.proc.pVnode k.ram (some plan) }
        (update sleep t none) := (h.loaded ht).congr rfl rfl rfl rfl
    refine (faultReturn_spec hidle hL.live hf).mono fun r hr => ⟨?_, trivial⟩
    exact hr.1.of_advance (.of_same rfl rfl rfl rfl)
  | swapIn fp va paddr s =>
    obtain ⟨-, L, -, hL, -⟩ := h.tasks t _ ht
    obtain ⟨f, rfl, hlt, hs, hm, hnext⟩ := h.fetched ht
    have hf20 : f < 2 ^ 20 := by
      have := h.owned.frames.wf.nRamFrames_le
      omega
    refine (faultSwapEnd_spec k hf20 hs h.owned.slots.wf h.owned.slots.nbits hm
      fun _ => trivial).bind ?_
    rintro k' ⟨bm, hn, hwf, hbm, rfl⟩
    refine (faultReturn_spec (hnext bm _ hn hwf hbm) (f := f) hL.live ?_).mono fun r hr =>
      ⟨hr.1.of_advance ?_, trivial⟩
    · simpa only [update_self] using fp.segType.resident_inFrame f 0
    · exact .setPt hL.live rfl (.refl _) (fun _ hf _ => hf) rfl rfl

end Threads

/-! ## Runs -/

namespace Conc

/-- The invariant of the concurrent system. -/
structure Inv (s : Conc) : Prop where
  flight : ∃ g, InFlight g s.kernel s.sleep
  awake : ∀ p, s.kernel.curproc = some p → s.sleep p = none
  blocks : ∀ a ∈ s.kblocks, ∃ h, a = paddrToKvaddr (h * pageSize) ∧ s.kernel.coremap.KernelBlock h
  nodup : s.kblocks.Nodup

/-- The operation asks for a frame. -/
def NeedsFrame (s : Conc) : ConcOp → Prop
  | .fault faulttype faultaddress => s.kernel.Misses faulttype faultaddress
  | .allocKpages _ _ => True
  | _ => False

/-- The operation destroys no address space with a page on its way to swap. -/
def DestroysSafely (s : Conc) : ConcOp → Prop
  | .destroy p => ∀ t req f i e, s.sleep t = some (.swapOut req f i) →
      s.kernel.coremap.owner f = some e → e.asid ≠ p
  | _ => True

/-- The operation takes no frame that is being read into, and destroys no address space with
a page on its way to swap. -/
def Undisturbed (s : Conc) (op : ConcOp) : Prop :=
  (s.NeedsFrame op → VictimSafe s.kernel s.sleep) ∧ s.DestroysSafely op

/-- A frame `f` that thread `t` is writing to slot `i` for `req` goes to that request when the
thread goes on, and the slot to the page that was in it. When another operation runs the
frame stays with its page. -/
def HandedOver (s : Conc) (op : ConcOp) (s' : Conc) : Prop :=
  ∀ t req f i, s.sleep t = some (.swapOut req f i) →
    (op = .wake t ∧ WroteOut s.kernel s'.kernel (.swapOut req f i)) ∨
    (op ≠ .wake t ∧ s'.sleep t = some (.swapOut req f i) ∧
      s'.kernel.coremap.owner f = s.kernel.coremap.owner f)

/-- What an operation does. -/
structure Moved (s : Conc) (op : ConcOp) (r : Outcome × Conc) : Prop where
  inv : r.2.Inv
  pt : ∀ e, r.2.kernel.pt e ≠ s.kernel.pt e → s.kernel.Live e
  handed : s.HandedOver op r.2
  faulted : ∀ fp va, r.1 = .returned (.faulted fp va) → Installed r.2.kernel fp va
  destroyed : ∀ p, op = .destroy p → r.2.kernel.pt = s.kernel.pt ∧ r.2.sleep = s.sleep ∧
    r.2.kernel.procs = update s.kernel.procs p none

section Moves

variable {s : Conc} {op : ConcOp} {g : Ghost} {own : Option ℕ} {t : ℕ} {k : Kernel}

/-- The state after a thread ran is the kernel it left, with the thread asleep or not. -/
theorem settle_eq (s : Conc) (t : ℕ) (r : Progress × Kernel) :
    ∃ c, (c = none ∨ c = r.2.curproc ∧ r.1.sleep = none) ∧
      (s.settle t r).2.kernel = { r.2 with curproc := c } ∧
      (s.settle t r).2.sleep = update s.sleep t r.1.sleep := by
  match r with
  | (.sleeps w, k) => exact ⟨none, Or.inl rfl, rfl, rfl⟩
  | (.returns (.faulted fp va), k) => exact ⟨k.curproc, Or.inr ⟨rfl, rfl⟩, rfl, rfl⟩
  | (.returns (.refused (.ret e)), k) => exact ⟨k.curproc, Or.inr ⟨rfl, rfl⟩, rfl, rfl⟩
  | (.returns (.refused (.exit status)), k) => exact ⟨none, Or.inl rfl, rfl, rfl⟩
  | (.returns (.allocated paddr), k) => exact ⟨k.curproc, Or.inr ⟨rfl, rfl⟩, rfl, rfl⟩

theorem settle_returned {r : Progress × Kernel} {res : Result}
    (h : (s.settle t r).1 = .returned res) : r.1 = .returns res := by
  obtain ⟨pr, k⟩ := r
  cases pr with
  | sleeps w => cases h
  | returns res' => exact congrArg Progress.returns (Outcome.returned.inj h)

/-- Only `alloc_kpages` adds to the blocks. -/
theorem settle_kblocks (s : Conc) (t : ℕ) (r : Progress × Kernel) :
    (s.settle t r).2.kblocks = s.kblocks ∨ ∃ paddr, r.1 = .returns (.allocated paddr) ∧
      (s.settle t r).2.kblocks = paddrToKvaddr paddr :: s.kblocks := by
  match r with
  | (.sleeps w, k) => exact Or.inl rfl
  | (.returns (.faulted fp va), k) => exact Or.inl rfl
  | (.returns (.refused r), k) => exact Or.inl rfl
  | (.returns (.allocated paddr), k) => exact Or.inr ⟨paddr, rfl, rfl⟩

theorem dispatch_spec (k : Kernel) (t : ℕ) :
    (dispatch k t).coremap = k.coremap ∧ (dispatch k t).pt = k.pt ∧ (dispatch k t).swap = k.swap ∧
      (dispatch k t).procs = k.procs ∧ ∀ p, (dispatch k t).curproc = some p → p = t := by
  obtain ⟨tlb, stats, htlb⟩ := asActivate_eq { k with
    curproc := if (k.procs t).isSome then some t else none }
  rw [dispatch, htlb]
  refine ⟨rfl, rfl, rfl, rfl, fun p hp => ?_⟩
  split_ifs at hp
  exact (Option.some.inj hp).symm

/-- Thread `t` ran, from the kernel `k` that the operation gave it. -/
theorem Moved.of_ran {r : Progress × Kernel} (hs : s.Inv) (hr : Ran own t k s.sleep r)
    (hcm : k.coremap = s.kernel.coremap) (hpt : k.pt = s.kernel.pt)
    (hprocs : k.procs = s.kernel.procs) (hcur : ∀ p, k.curproc = some p → p = t)
    (hown : ∀ t' req f i, s.sleep t' = some (.swapOut req f i) →
      (op = .wake t' ∧ WroteOut k r.2 (.swapOut req f i)) ∨
        (op ≠ .wake t' ∧ t' ≠ t ∧ own ≠ some f))
    (hop : ∀ p, op ≠ .destroy p) : s.Moved op (s.settle t r) := by
  obtain ⟨g, hg⟩ := hs.flight
  obtain ⟨g', hg'⟩ := hr.flight
  obtain ⟨c, hc, hk, hsl⟩ := settle_eq s t r
  have hblocks : ∀ a ∈ s.kblocks, ∃ h, a = paddrToKvaddr (h * pageSize) ∧
      r.2.coremap.KernelBlock h := fun a ha => by
    obtain ⟨h, hah, hb⟩ := hs.blocks a ha
    exact ⟨h, hah, hr.advance.blocks h (hcm ▸ hb)⟩
  refine ⟨⟨⟨g', ?_⟩, fun p hp => ?_, fun a ha => ?_, ?_⟩, fun e he => ?_, fun t' req f i ht' => ?_,
    fun fp va hout => ?_, fun p hp => absurd hp (hop p)⟩
  · rw [hk, hsl]
    exact hg'.congr rfl rfl rfl rfl
  · rw [hk] at hp
    rcases hc with rfl | ⟨rfl, hnone⟩
    · cases hp
    · rw [hsl, hcur p (hr.advance.curproc ▸ hp), update_self, hnone]
  · rw [hk]
    rcases settle_kblocks s t r with hkb | ⟨paddr, hr1, hkb⟩
    · exact hblocks a (hkb ▸ ha)
    · rw [hkb] at ha
      rcases List.mem_cons.mp ha with rfl | ha
      · have hok := hr.ok
        rw [hr1] at hok
        obtain ⟨b, rfl, -, hb⟩ := hok
        exact ⟨b, rfl, hb⟩
      · exact hblocks a ha
  · rcases settle_kblocks s t r with hkb | ⟨paddr, hr1, hkb⟩
    · rw [hkb]
      exact hs.nodup
    · have hok := hr.ok
      rw [hr1] at hok
      obtain ⟨b, rfl, hnew, -⟩ := hok
      rw [hkb]
      refine List.nodup_cons.mpr ⟨fun ha => ?_, hs.nodup⟩
      obtain ⟨h, hah, hb⟩ := hs.blocks _ ha
      obtain rfl := paddrToKvaddr_inj hah
      exact hnew (hcm ▸ hb)
  · rw [hk] at he
    obtain ⟨pr, n, hpr, hn⟩ := hr.advance.pt e (hpt ▸ he)
    exact ⟨pr, n, hprocs ▸ hpr, hn⟩
  · rw [hk, hsl]
    have hlive : k.Live = s.kernel.Live := by
      funext e
      simp only [Kernel.Live, hprocs]
    refine (hown t' req f i ht').imp (fun h => ?_) ?_
    · rw [WroteOut, hcm, hlive] at h
      exact h
    rintro ⟨hop, htt, hf⟩
    refine ⟨hop, by rw [update_of_ne htt, ht'], ?_⟩
    rw [← hcm]
    exact (hr.advance.kept f (hcm ▸ (hg.locked_of_swapOut ht').2) hf).2
  · rw [hk]
    have hok := hr.ok
    rw [settle_returned hout] at hok
    exact hok

/-- An operation that changes only the kernel, and nothing the sleeping threads rely on. -/
theorem Moved.of_kernel {k : Kernel} {kblocks : List ℕ} (hg : InFlight g k s.sleep)
    (hawake : ∀ p, k.curproc = some p → s.sleep p = none) (hpt : k.pt = s.kernel.pt)
    (howner : k.coremap.owner = s.kernel.coremap.owner) (hop : ∀ t, op ≠ .wake t)
    (hblocks : ∀ a ∈ kblocks, ∃ h, a = paddrToKvaddr (h * pageSize) ∧ k.coremap.KernelBlock h)
    (hnodup : kblocks.Nodup)
    (hprocs : ∀ p, op = .destroy p → k.procs = update s.kernel.procs p none) :
    s.Moved op (.done, ⟨k, s.sleep, kblocks⟩) := by
  refine ⟨⟨⟨g, hg⟩, hawake, hblocks, hnodup⟩, fun e he => absurd (by rw [hpt]) he,
    fun t req f i ht => Or.inr ⟨hop t, ht, ?_⟩, nofun,
    fun p hp => ⟨hpt, rfl, hprocs p hp⟩⟩
  exact congrFun howner f

/-- Every operation that is not disturbed keeps the invariant. -/
theorem exec_spec (hs : s.Inv) (hal : s.Allowed op) (hg : s.Undisturbed op) :
    Meets Halt.Resource (s.Moved op) (s.exec op) := by
  obtain ⟨g, hf⟩ := hs.flight
  cases op with
  | switch p =>
    obtain ⟨tlb, stats, htlb⟩ := asActivate_eq { s.kernel with curproc := p }
    rw [exec, htlb]
    refine .of_kernel (hf.congr rfl rfl rfl rfl) ?_ rfl rfl (by simp) hs.blocks hs.nodup (by simp)
    rintro q rfl
    exact Option.isNone_iff_eq_none.mp hal.2
  | fault ty va =>
    obtain ⟨t, ht⟩ := Option.isSome_iff_exists.mp hal
    rw [exec, ht, Option.getD_some]
    refine (faultBegin_spec hf (hs.awake t ht) ht hg.1).bind fun r hr => ?_
    refine Moved.of_ran hs hr rfl rfl rfl (fun p hp => Option.some.inj (hp.symm.trans ht)) ?_
      (by simp)
    intro t' req f i ht'
    refine Or.inr ⟨by simp, ?_, by simp⟩
    rintro rfl
    rw [hs.awake t' ht] at ht'
    cases ht'
  | allocKpages t n =>
    obtain ⟨hn, ht, hcur⟩ := hal
    have ht := Option.isNone_iff_eq_none.mp ht
    have hreq : s.kernel.RequestOk t .kernel := trivial
    refine (requestBegin_spec hf ht hn (by simp [Request.ptentry]) (hg.1 trivial) hreq).bind
      fun r hr => ?_
    refine Moved.of_ran hs hr rfl rfl rfl (fun p hp => ?_) ?_ (by simp)
    · rw [hcur] at hp
      split_ifs at hp
      exact (Option.some.inj hp).symm
    · intro t' req f i ht'
      refine Or.inr ⟨by simp, ?_, by simp⟩
      rintro rfl
      rw [ht] at ht'
      cases ht'
  | freeKpages addr =>
    obtain ⟨h, rfl, hb⟩ := hs.blocks addr hal
    have hfree := coremapFreeppages_eq hf.owned.frames.wf hb.lt hb.size
    rw [exec, freeKpages, freeppages, kvaddrToPaddr_paddrToKvaddr, hfree, ok_bind, ok_bind]
    have hflight : InFlight g { s.kernel with coremap := s.kernel.coremap.release h } s.sleep :=
      ⟨⟨hf.owned.frames.release hb.lt hb.ne_zero hb.owner, hf.owned.slots⟩, hf.live, hf.procs,
        hf.marks, fun t w ht => (hf.tasks t w ht).congr rfl (fun _ _ => rfl) (fun _ _ _ _ => id)
          fun _ _ => rfl⟩
    exact .of_kernel hflight hs.awake rfl rfl (by simp)
      (hb.erase hf.owned.frames.wf hs.blocks hs.nodup) (hs.nodup.erase _) (by simp)
  | destroy p =>
    obtain ⟨hsome, hsleep, hne⟩ := hal
    have hsleep := Option.isNone_iff_eq_none.mp hsleep
    obtain ⟨pr, hpr⟩ := Option.isSome_iff_exists.mp hsome
    obtain ⟨L, hL⟩ := hf.procs p pr hpr
    have hout : ∀ i f, i < L.npages → (s.kernel.pt ⟨p, i⟩).InFrame f → g.out f = none := by
      intro i f hi hin
      have hl : g.live ⟨p, i⟩ := by
        rw [hf.live]
        exact (Kernel.live_iff hpr hL.1).mpr hi
      cases hgo : g.out f with
      | none => rfl
      | some j =>
        obtain ⟨t, req, ht⟩ := hf.swapOut_of_out hgo
        exact absurd rfl (hg.2 t req f j _ ht (hf.owned.frames.resident _ f hl hin).2.2.2)
    obtain ⟨k', k₁, hd, he, hk', ho⟩ := asDestroy_spec hf.owned hf.live hpr hL.1 hout
    rw [exec, hd, ok_bind]
    subst hk'
    refine .of_kernel (k := { k₁ with procs := update s.kernel.procs p none })
      ⟨ho, rfl, fun q pr hq => ?_, ⟨hf.marks.out, hf.marks.limbo, hf.marks.inj⟩, fun t w ht => ?_⟩
      ?_ he.pt he.owner (by simp) (fun a ha => ?_) hs.nodup fun q hq => by cases hq; rfl
    · by_cases hqp : q = p
      · subst hqp
        simp at hq
      · exact hf.procs q pr (by simpa [hqp] using hq)
    · have htp : t ≠ p := by
        rintro rfl
        rw [hsleep] at ht
        cases ht
      exact (hf.tasks t w ht).congr (update_of_ne htp _ _) (fun _ _ => by rw [he.pt])
        (fun _ _ _ _ => id) fun f _ => congrFun he.owner f
    · rw [he.curproc]
      exact hs.awake
    · obtain ⟨h, hah, hb⟩ := hs.blocks a ha
      exact ⟨h, hah, he.kernelBlock hb⟩
  | wake t =>
    obtain ⟨w, hw⟩ := Option.isSome_iff_exists.mp hal
    obtain ⟨hcm, hpt, hsw, hprocs, hcur⟩ := dispatch_spec s.kernel t
    rw [exec, hw]
    refine (wake_spec (hf.congr hcm hpt (by rw [hsw]) hprocs) hw).bind ?_
    rintro r ⟨hr, hown⟩
    refine Moved.of_ran hs hr hcm hpt hprocs hcur (fun t' req f i ht' => ?_) (by simp)
    by_cases htt : t' = t
    · subst htt
      obtain rfl := Option.some.inj (hw.symm.trans ht')
      exact Or.inl ⟨rfl, hown⟩
    · refine Or.inr ⟨fun hop => htt (ConcOp.wake.inj hop).symm, htt, fun hv => htt ?_⟩
      cases w with
      | swapOut req' f' i' =>
        cases hv
        exact hf.swapOut_inj ht' hw
      | load fp va plan => cases hv
      | swapIn fp va paddr j => cases hv

theorem step_inv {s' : Conc} {ev : ConcOp × Outcome} (hs : s.Inv) (h : s.Step ev s')
    (hg : s.Undisturbed ev.1) : s.Moved ev.1 (ev.2, s') :=
  (exec_spec hs h.1 hg).of_ok h.2

/-- The states of the sequential system are where the concurrent system starts. -/
theorem ofSys_inv {s : Sys} (hs : s.Inv) : (ofSys s).Inv := by
  refine ⟨⟨.quiet s.kernel.Live, hs.kernel.owned, rfl, hs.kernel.procs, ?_, ?_⟩, fun _ _ => rfl,
    hs.blocks, hs.nodup⟩
  · refine ⟨fun f i => ?_, fun f => ?_, fun t t' x y hx => by cases hx⟩
    · exact ⟨nofun, fun ⟨t, ht⟩ => by cases ht⟩
    · exact ⟨fun h => h.elim, fun ⟨t, ht⟩ => by cases ht⟩
  · intro t w ht
    cases ht

/-- What holds in every state of a run that is not disturbed. -/
theorem run_inv {ramsize firstfree : ℕ} {s₀ s₁ : Sys} {tr₀ : List Event}
    {tr : List (ConcOp × Outcome)} (hb : Sys.Boot ramsize firstfree s₀)
    (h₁ : Run Sys.Step s₀ tr₀ s₁)
    (h : Run (guarded (fun s ev => s.Undisturbed ev.1) Step) (ofSys s₁) tr s) : s.Inv :=
  h.invariant (ofSys_inv (Sys.run_inv hb h₁)) fun _ _ _ hi hs => (step_inv hi hs.1 hs.2).inv

end Moves

end Conc

end OS161
