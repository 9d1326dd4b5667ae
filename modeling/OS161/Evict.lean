import OS161.Ownership

/-!
# Where `coremap_getppages` gets its frames

A request for frames is served in one of three ways : from a run of free frames, from the
frame of a read-only page, which is dropped, or from the frame of another page, which is
first written to swap. `Kernel.discard`, `Kernel.startOut` and `Kernel.finishOut` are the
states these ways go through; `coremapGetBegin_spec`, `coremapGetEnd_eq` and
`coremapGetppages_spec` say that nothing else happens, apart from a panic for want of
memory, swap space or a victim. Every invariant of the memory system is then a matter of
these three transitions and of `Kernel.take`.
-/

namespace OS161

open Function

variable {g : Ghost} {k : Kernel} {f n : ℕ} {live : PtPtr → Prop}

/-! ## The transitions -/

namespace Kernel

variable (k : Kernel)

/-- The read-only page of entry `e` is dropped from frame `f`. -/
def discard (f : ℕ) (e : PtPtr) : Kernel :=
  { k with
    coremap := { k.coremap with victimIndex := f }
    pt := update k.pt e ⟨0, 0, .notLoaded⟩
    tlb := k.tlb.remove (f * pageSize) }

/-- Frame `f` is the victim and locked. -/
def lockVictim (f : ℕ) : Kernel :=
  { k with coremap := Coremap.setLock { k.coremap with victimIndex := f } f true }

/-- Frame `f` is locked and written to slot `s`, which the bitmap `bm` marks. -/
def startOut (f s : ℕ) (bm : Bitmap) : Kernel :=
  { vmstatsHit k .swapWrite with
    coremap := Coremap.setLock { k.coremap with victimIndex := f } f true
    swap := { k.swap with
      swapmap := bm
      swapfile := moveBytes k.ram (f * pageSize) k.swap.swapfile (s * pageSize) pageSize } }

/-- The page of entry `e` is in slot `s` now, and no longer in frame `f`. -/
def finishOut (f s : ℕ) (e : PtPtr) : Kernel :=
  { k with
    coremap := k.coremap.setLock f false
    pt := update k.pt e ⟨0, s, .inSwap⟩
    tlb := k.tlb.remove (f * pageSize) }

/-- The three records agree. -/
structure Owned (g : Ghost) (k : Kernel) : Prop where
  frames : FrameOwn g k.coremap k.pt
  slots : SlotOwn g k.pt k.swap.swapmap

end Kernel

theorem inSlot_inSwap (f s : ℕ) : (⟨f, s, .inSwap⟩ : PtEntry).InSlot s :=
  ⟨rfl, rfl⟩

/-- The search for a victim moves only `victim_index`. -/
theorem FrameOwn.setVictim {cm : Coremap} {pt : PtPtr → PtEntry}
    (h : FrameOwn g cm pt) (vi : ℕ) : FrameOwn g { cm with victimIndex := vi } pt :=
  ⟨⟨h.wf.tiled, h.wf.nRamFrames_le⟩, h.zero, h.resident, h.owned, h.limbo, h.locked, h.out⟩

namespace Kernel.Owned

variable {g : Ghost} {k : Kernel} {b f n s : ℕ} {e : PtPtr}

theorem take_free {e : Option PtPtr} (h : k.Owned g) (hrun : k.coremap.FreeRun n b) (hn : 0 < n)
    (he : e.isSome → n = 1) : (k.take b n e).Owned (g.grant b e) :=
  ⟨h.frames.grant_free hrun hn he, ⟨h.slots.wf, h.slots.nbits, h.slots.lt, h.slots.marked,
    h.slots.unique⟩⟩

theorem take_limbo {e : Option PtPtr} (h : k.Owned g) (hl : g.limbo f) :
    (k.take f 1 e).Owned (g.grant f e) :=
  ⟨h.frames.grant_limbo hl, ⟨h.slots.wf, h.slots.nbits, h.slots.lt, h.slots.marked,
    h.slots.unique⟩⟩

theorem discard (h : k.Owned g) (hl : g.live e) (hf : (k.pt e).InFrame f) (ho : g.out f = none) :
    (k.discard f e).Owned (g.evict f) := by
  refine ⟨(h.frames.setVictim f).evict hl hf ho (PtEntry.not_inFrame_of_notLoaded rfl), ?_⟩
  have hs := h.slots.setRow (x := ⟨0, 0, .notLoaded⟩) hf.not_inSlot
    (PtEntry.not_inSlot_of_notLoaded rfl)
  exact ⟨hs.wf, hs.nbits, hs.lt, hs.marked, hs.unique⟩

theorem startOut {bm : Bitmap} (h : k.Owned g) (hl : g.live e) (hf : (k.pt e).InFrame f)
    (ho : g.out f = none) (hbm : AllocPost k.swap.swapmap (some (s, bm))) :
    (k.startOut f s bm).Owned (g.setOut f (some s)) := by
  obtain ⟨hlt, hnew, -, hn, hwf, hm⟩ := hbm
  rw [h.slots.nbits] at hlt
  exact ⟨(h.frames.setVictim f).setLock (some s) fun _ => ⟨e, hl, hf⟩,
    h.slots.take ho hlt hnew hwf hn hm⟩

theorem finishOut (h : k.Owned g) (hl : g.live e) (hf : (k.pt e).InFrame f)
    (ho : g.out f = some s) :
    (k.finishOut f s e).Owned ((g.setOut f none).evict f) := by
  have hx := inSlot_inSwap 0 s
  refine ⟨(h.frames.setLock none fun hn => by cases hn).evict hl hf (g.out_setOut f none)
    hx.not_inFrame, ?_⟩
  have hs := h.slots.transfer hl hf.not_inSlot ho hx
  exact ⟨hs.wf, hs.nbits, hs.lt, hs.marked, hs.unique⟩

end Kernel.Owned

/-! ## The functions -/

theorem ptSetEntry_eq (k : Kernel) (e : PtPtr) (f : ℕ) {s : ℕ} (status : PtStatus)
    (hs : s < 0xfff) : ptSetEntry k e (f * pageSize) s status =
      .ok { k with pt := update k.pt e ⟨f % 2 ^ 20, s, status⟩ } := by
  rw [ptSetEntry, kassert_pos hs, ok_bind, mul_pageSize_div]

theorem tlbRemoveByPaddr_eq (k : Kernel) (f : ℕ) :
    tlbRemoveByPaddr k (f * pageSize) = .ok { k with tlb := k.tlb.remove (f * pageSize) } := by
  rw [tlbRemoveByPaddr, kassert_pos (mul_pageSize_mod f), ok_bind]

/-- The frame `coremap_swapout` takes : no frame is free, and the victim search picks `f`. -/
def Kernel.Chosen (k : Kernel) (f : ℕ) : Prop :=
  coremapFindFreeframes k.coremap 1 = .ok none ∧
    ∃ cm, coremapGetVictim k.coremap = .ok (some f, cm)

/-- The state of a frame that is chosen. -/
structure Victim (g : Ghost) (k : Kernel) (f : ℕ) (e : PtPtr) : Prop where
  chosen : k.Chosen f
  live : g.live e
  inFrame : (k.pt e).InFrame f
  out : g.out f = none

/-- `coremap_swapout` drops a read-only page, or locks the frame of another. -/
def SwapoutPost (g : Ghost) (k : Kernel) : ℕ × Bool × Kernel → Prop
  | (f, false, k') => ∃ e, Victim g k f e ∧ (k.pt e).ptStatus = .inMemoryRdonly ∧
      k' = k.discard f e
  | (f, true, k') => ∃ e, Victim g k f e ∧ (k.pt e).ptStatus = .inMemory ∧
      k' = k.lockVictim f

/-- The victim search does not pick a frame between two owners. -/
def Victimless (g : Ghost) (k : Kernel) : Prop :=
  ∀ f, k.Chosen f → ¬g.limbo f

/-- A request for one frame that finds none free finds every frame in use. -/
theorem used_of_find {cm : Coremap} (h : cm.WF) (hfind : coremapFindFreeframes cm 1 = .ok none) :
    ∀ f < cm.nRamFrames, cm.used f = true := by
  intro f hf
  by_contra hu
  have hrun : cm.FreeRun 1 f := by
    refine ⟨hf, fun f' h1 h2 => ?_⟩
    obtain rfl : f' = f := by omega
    simpa using hu
  rcases coremapFindFreeframes_spec h Nat.one_pos with ⟨b, hb, -, -⟩ | ⟨-, hnone⟩
  · rw [hfind] at hb
    cases hb
  · exact hnone f hrun

/-- With a frame chosen, `coremap_swapout` drops its page or locks it. -/
theorem coremapSwapoutBegin_of_chosen (h : k.Owned g)
    (hg : Victimless g k) (hchosen : k.Chosen f) :
    ∃ r, coremapSwapoutBegin k 1 = .ok r ∧ SwapoutPost g k r := by
  obtain ⟨hfind, cm, hv⟩ := hchosen
  obtain ⟨hfirst, hu, -, rfl⟩ := coremapGetVictim_ok hv
  obtain ⟨hlt, ho, hlock⟩ := Coremap.swappable_of_first hfirst
  obtain ⟨e, he⟩ := Option.isSome_iff_exists.mp ho
  obtain ⟨hl, hf⟩ := (h.frames.owned f e hlt hu he).2.resolve_left (hg f ⟨hfind, _, hv⟩)
  have hout : g.out f = none := by
    have := h.frames.locked f hlt
    rw [hlock] at this
    simpa using this.symm
  have hvictim : Victim g k f e := ⟨⟨hfind, _, hv⟩, hl, hf, hout⟩
  rw [coremapSwapoutBegin, if_neg (lt_irrefl 1), hv, ok_bind]
  dsimp only
  rw [show Coremap.owner { k.coremap with victimIndex := f } f = some e from he, deref_some,
    ok_bind]
  split_ifs with hro
  · have hset := ptSetEntry_eq { k with coremap := { k.coremap with victimIndex := f } } e 0
      .notLoaded (s := 0) (by decide)
    rw [Nat.zero_mul] at hset
    rw [hset, ok_bind, tlbRemoveByPaddr_eq, ok_bind]
    exact ⟨_, rfl, e, hvictim, hro, rfl⟩
  · exact ⟨_, rfl, e, hvictim, hf.1.resolve_right hro, rfl⟩

theorem coremapSwapoutBegin_spec (h : k.Owned g)
    (hg : Victimless g k) (hfind : coremapFindFreeframes k.coremap 1 = .ok none) :
    Meets Halt.Resource (SwapoutPost g k) (coremapSwapoutBegin k 1) := by
  rcases coremapGetVictim_spec (h.frames.swappable (used_of_find h.frames.wf hfind)) with
    ⟨f, -, hv⟩ | ⟨-, cm, hv⟩
  · obtain ⟨r, hr, hpost⟩ := coremapSwapoutBegin_of_chosen h hg ⟨hfind, _, hv⟩
    rw [hr]
    exact hpost
  · rw [coremapSwapoutBegin, if_neg (lt_irrefl 1), hv, ok_bind]
    exact trivial

/-- `swap_out`, after the search for a slot. -/
theorem swapOut_eq (hwf : k.swap.swapmap.WF) (f : ℕ) : ∃ r, AllocPost k.swap.swapmap r ∧
    swapOut k (f * pageSize) = match r with
      | none => .error (.panic "Out of swap space\n")
      | some (s, bm) => if k.swap.ioError s then .error (.panic "Error swapping out\n")
        else .ok (s, { vmstatsHit k .swapWrite with swap := { k.swap with
          swapmap := bm
          swapfile :=
            moveBytes k.ram (f * pageSize) k.swap.swapfile (s * pageSize) pageSize } }) := by
  have hspec := bitmapAlloc_spec hwf
  cases ha : bitmapAlloc k.swap.swapmap with
  | error e => exact (hspec.of_error ha).elim
  | ok r =>
    refine ⟨r, hspec.of_ok ha, ?_⟩
    rw [swapOut, kassert_pos (mul_pageSize_mod f), ok_bind,
      show bitmapAlloc (vmstatsHit k .swapWrite).swap.swapmap = .ok r from ha, ok_bind]
    rfl

theorem swapOut_spec (hwf : k.swap.swapmap.WF) :
    Meets Halt.Resource (fun r => ∃ bm, AllocPost k.swap.swapmap (some (r.1, bm)) ∧
      r.2 = { vmstatsHit k .swapWrite with swap := { k.swap with
        swapmap := bm
        swapfile := moveBytes k.ram (f * pageSize) k.swap.swapfile (r.1 * pageSize) pageSize } })
      (swapOut k (f * pageSize)) := by
  obtain ⟨_ | ⟨s, bm⟩, hpost, heq⟩ := swapOut_eq hwf f
  · rw [heq]
    exact trivial
  · rw [heq]
    dsimp only
    split_ifs
    · exact trivial
    · exact ⟨bm, hpost, rfl⟩

/-- How `coremap_getppages` stands when it gives up the spinlock for the first time. -/
def GetPost (g : Ghost) (k : Kernel) (n : ℕ) (e : Option PtPtr) : GetState × Kernel → Prop
  | (.done b, k') => (k.coremap.FreeRun n b ∧ k' = k.take b n e) ∨
      n = 1 ∧ ∃ e', Victim g k b e' ∧ (k.pt e').ptStatus = .inMemoryRdonly ∧
        k' = (k.discard b e').take b 1 e
  | (.writing f s, k') => n = 1 ∧ ∃ e' bm, Victim g k f e' ∧ (k.pt e').ptStatus = .inMemory ∧
      AllocPost k.swap.swapmap (some (s, bm)) ∧ k' = k.startOut f s bm

/-- The first half of `coremap_getppages`. -/
theorem coremapGetBegin_spec (h : k.Owned g) (hn : 0 < n)
    (hg : Victimless g k) (e : Option PtPtr) :
    Meets Halt.Resource (GetPost g k n e) (coremapGetBegin k n e) := by
  unfold coremapGetBegin
  rcases coremapFindFreeframes_spec h.frames.wf hn with ⟨b, hb, hrun, -⟩ | ⟨hb, hnone⟩
  · rw [hb, ok_bind]
    exact Or.inl ⟨hrun, rfl⟩
  rw [hb, ok_bind]
  by_cases hn1 : n = 1
  · subst hn1
    refine (coremapSwapoutBegin_spec h hg hb).bind ?_
    rintro ⟨f, writing, k'⟩ hpost
    cases writing with
    | false =>
      obtain ⟨e', hv, hro, rfl⟩ := hpost
      exact Or.inr ⟨rfl, e', hv, hro, rfl⟩
    | true =>
      obtain ⟨e', hv, hst, rfl⟩ := hpost
      dsimp only
      refine (swapOut_spec (k := k.lockVictim f) h.slots.wf).bind ?_
      rintro ⟨s, k'⟩ ⟨bm, hbm, hk'⟩
      exact ⟨rfl, e', bm, hv, hst, hbm, hk'⟩
  · have hlt : 1 < n := by omega
    rw [coremapSwapoutBegin, if_pos hlt]
    exact trivial

/-- The second half of `coremap_getppages`. -/
theorem coremapGetEnd_eq {s : ℕ} {e : PtPtr} (e' : Option PtPtr)
    (hs : s < swapfileNpages) (ho : k.coremap.owner f = some e) :
    coremapGetEnd k f s n e' = .ok ((k.finishOut f s e).take f n e') := by
  have hlt : s < 0xfff := lt_trans hs (by decide)
  have hset := ptSetEntry_eq { k with coremap := k.coremap.setLock f false } e 0 .inSwap hlt
  rw [Nat.zero_mul] at hset
  rw [coremapGetEnd, coremapSwapoutEnd]
  rw [Coremap.owner_setLock, ho, deref_some, ok_bind, hset, ok_bind, tlbRemoveByPaddr_eq, ok_bind]
  rfl

/-! ## Requests in the sequential system -/

/-- The three ways `coremap_getppages` gets its frames when nothing is under way. -/
inductive Granted (live : PtPtr → Prop) (k : Kernel) (n : ℕ) (e : Option PtPtr) : ℕ → Kernel → Prop
  | free {b : ℕ} : k.coremap.FreeRun n b → Granted live k n e b (k.take b n e)
  | dropped {f : ℕ} {e' : PtPtr} : n = 1 → live e' → (k.pt e').InFrame f →
      (k.pt e').ptStatus = .inMemoryRdonly → Granted live k n e f ((k.discard f e').take f 1 e)
  | swapped {f s : ℕ} {e' : PtPtr} {bm : Bitmap} : n = 1 → live e' → (k.pt e').InFrame f →
      (k.pt e').ptStatus = .inMemory → AllocPost k.swap.swapmap (some (s, bm)) →
      Granted live k n e f (((k.startOut f s bm).finishOut f s e').take f 1 e)

theorem victimless_quiet (live : PtPtr → Prop) (k : Kernel) : Victimless (.quiet live) k :=
  fun _ _ => id

/-- The TLB keeps its entries, or the one of the frame that was chosen is removed. -/
def TlbKept (k k' : Kernel) (f : ℕ) : Prop :=
  k'.tlb = k.tlb ∨
    k.Chosen f ∧ k'.tlb = k.tlb.remove (f * pageSize) ∧ k'.coremap.victimIndex = f

/-- `coremap_getppages` comes to its end if its first half does. -/
theorem coremapGetppages_of_begin {e : Option PtPtr}
    {r : GetState × Kernel} (h : k.Owned (.quiet live)) (hr : coremapGetBegin k n e = .ok r)
    (hpost : GetPost (.quiet live) k n e r) :
    ∃ b k', coremapGetppages k n e = .ok (b * pageSize, k') ∧ Granted live k n e b k' ∧
      TlbKept k k' b := by
  rw [coremapGetppages, hr, ok_bind]
  obtain ⟨st, k'⟩ := r
  cases st with
  | done b =>
    rcases hpost with ⟨hrun, rfl⟩ | ⟨rfl, e', hv, hro, rfl⟩
    · exact ⟨b, _, rfl, .free hrun, Or.inl rfl⟩
    · exact ⟨b, _, rfl, .dropped rfl hv.live hv.inFrame hro, Or.inr ⟨hv.chosen, rfl, rfl⟩⟩
  | writing f s =>
    obtain ⟨rfl, e', bm, hv, hst, hbm, rfl⟩ := hpost
    have hs : s < swapfileNpages := h.slots.nbits ▸ hbm.1
    have ho : (k.startOut f s bm).coremap.owner f = some e' := by
      rw [Kernel.startOut, Coremap.owner_setLock]
      exact (h.frames.resident e' f hv.live hv.inFrame).2.2.2
    dsimp only
    rw [coremapGetEnd_eq e hs ho, ok_bind]
    exact ⟨f, _, rfl, .swapped rfl hv.live hv.inFrame hst hbm, Or.inr ⟨hv.chosen, rfl, rfl⟩⟩

/-- `coremap_getppages`, run without interruption. -/
theorem coremapGetppages_spec
    (h : k.Owned (.quiet live)) (hn : 0 < n) (e : Option PtPtr) :
    Meets Halt.Resource (fun r => ∃ b, r.1 = b * pageSize ∧ Granted live k n e b r.2)
      (coremapGetppages k n e) := by
  have hspec := coremapGetBegin_spec h hn (victimless_quiet live k) e
  cases hr : coremapGetBegin k n e with
  | error err =>
    rw [coremapGetppages, hr]
    exact hspec.of_error hr
  | ok r =>
    obtain ⟨b, k', hget, hgr, -⟩ := coremapGetppages_of_begin h hr (hspec.of_ok hr)
    rw [hget]
    exact ⟨b, rfl, hgr⟩

/-- Frames that were granted are owned by the kernel, or wait for the entry of a page. -/
theorem Granted.owned {k' : Kernel} {b : ℕ} {e : Option PtPtr}
    (hk : Granted live k n e b k') (h : k.Owned (.quiet live)) (hn : 0 < n)
    (he : e.isSome → n = 1) : k'.Owned ((Ghost.quiet live).grant b e) := by
  cases hk with
  | free hrun => exact h.take_free hrun hn he
  | dropped _ hl hf hro =>
    have hd := (h.discard hl hf rfl).take_limbo (e := e) (Ghost.limbo_evict _ _)
    rwa [Ghost.grant_evict] at hd
  | swapped _ hl hf hst hbm =>
    have hout := h.startOut hl hf rfl hbm
    have hs := (hout.finishOut hl hf (Ghost.out_setOut _ _ _)).take_limbo (e := e)
      (Ghost.limbo_evict _ _)
    rwa [Ghost.grant_evict, Ghost.setOut_setOut, Ghost.setOut_eq_self _ rfl] at hs

end OS161
