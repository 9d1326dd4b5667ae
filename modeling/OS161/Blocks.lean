import OS161.System
import OS161.Evict

/-!
# Blocks of frames over whole runs

Whatever the rest of the kernel does, the coremap is written only by `coremap_getppages`
and `coremap_freeppages`. `BlockSys` runs these two in any order, between arbitrary changes
to everything else, and keeps a ledger of the blocks its callers hold. A block that was
taken by eviction replaces the block of the page that was evicted.

`Ledger` says that the sizes in the coremap are those of the ledger, behind the frames that
booting reserved. With the tiling of the coremap this gives `BlocksOk`, in terms of the used
frames; `coremap_blocks` is the result for every run, with what a request and a free do in
each state reached.
-/

namespace OS161

open Function

/-! ## The coremap under eviction -/

/-- What `coremap_getppages` does to the coremap : it takes the free frames it found, or the
frame of a page. -/
inductive Coremap.Grant (cm : Coremap) (n : ℕ) (e : Option PtPtr) (b : ℕ) (cm' : Coremap) : Prop
  | free : coremapFindFreeframes cm n = .ok (some b) → cm.FreeRun n b → cm' = cm.mark b n e →
      Coremap.Grant cm n e b cm'
  | evicted (cm₁ : Coremap) : n = 1 → coremapFindFreeframes cm n = .ok none → cm.Swappable b →
      cm.used b = true → cm.SameBlocks cm₁ → cm' = cm₁.mark b 1 e → Coremap.Grant cm n e b cm'

section Grant

variable {k k' : Kernel} {f s n : ℕ} {e : PtPtr}

theorem ptSetEntry_coremap {paddr : ℕ} {status : PtStatus}
    (h : ptSetEntry k e paddr s status = .ok k') : k'.coremap = k.coremap := by
  obtain ⟨_, -, h⟩ := bind_eq_ok.mp h
  cases h
  rfl

theorem tlbRemoveByPaddr_coremap {paddr : ℕ} (h : tlbRemoveByPaddr k paddr = .ok k') :
    k'.coremap = k.coremap := by
  obtain ⟨_, -, h⟩ := bind_eq_ok.mp h
  cases h
  rfl

theorem swapOut_coremap {paddr : ℕ} {r : ℕ × Kernel} (h : swapOut k paddr = .ok r) :
    r.2.coremap = k.coremap := by
  obtain ⟨_, -, h⟩ := bind_eq_ok.mp h
  obtain ⟨m, -, h⟩ := bind_eq_ok.mp h
  cases m with
  | none => cases h
  | some m =>
    dsimp only at h
    split_ifs at h
    cases h
    rfl

theorem coremapSwapoutEnd_coremap (h : coremapSwapoutEnd k f s = .ok k') :
    k'.coremap = k.coremap.setLock f false := by
  obtain ⟨e, -, h⟩ := bind_eq_ok.mp h
  obtain ⟨k₁, h₁, h⟩ := bind_eq_ok.mp h
  exact (tlbRemoveByPaddr_coremap h).trans (ptSetEntry_coremap h₁)

/-- The search for a victim picks frame `f`. -/
def Coremap.Picks (cm : Coremap) (f : ℕ) : Prop :=
  coremapGetVictim cm = .ok (some f, { cm with victimIndex := f })

/-- The victim is a user page that is not locked, and a block of its own. -/
theorem Coremap.Picks.victim {cm : Coremap} (h : cm.Picks f) :
    cm.Swappable f ∧ cm.used f = true ∧ cm.size f = 1 := by
  obtain ⟨hfirst, hu, hs, -⟩ := coremapGetVictim_ok h
  exact ⟨Coremap.swappable_of_first hfirst, hu, hs⟩

theorem coremapSwapoutBegin_coremap {r : ℕ × Bool × Kernel}
    (h : coremapSwapoutBegin k n = .ok r) : n ≤ 1 ∧ k.coremap.Picks r.1 ∧
      r.2.2.coremap = if r.2.1 then
        Coremap.setLock { k.coremap with victimIndex := r.1 } r.1 true
      else { k.coremap with victimIndex := r.1 } := by
  unfold coremapSwapoutBegin at h
  split_ifs at h with hn
  obtain ⟨⟨v, cm⟩, hvictim, h⟩ := bind_eq_ok.mp h
  cases v with
  | none => cases h
  | some f =>
    obtain ⟨-, -, -, rfl⟩ := coremapGetVictim_ok hvictim
    obtain ⟨e, -, h⟩ := bind_eq_ok.mp h
    refine ⟨not_lt.mp hn, ?_⟩
    split_ifs at h with hro
    · obtain ⟨k₁, h₁, h⟩ := bind_eq_ok.mp h
      obtain ⟨k₂, h₂, h⟩ := bind_eq_ok.mp h
      cases h
      exact ⟨hvictim, (tlbRemoveByPaddr_coremap h₂).trans (ptSetEntry_coremap h₁)⟩
    · cases h
      exact ⟨hvictim, rfl⟩

/-- What `coremap_getppages` does to the coremap until it gives up the spinlock : it takes
what it found, or it locks its victim. -/
def Coremap.GetBegun (cm : Coremap) (n : ℕ) (e : Option PtPtr) (cm' : Coremap) : GetState → Prop
  | .done b => (coremapFindFreeframes cm n = .ok (some b) ∧ cm' = cm.mark b n e) ∨
      (coremapFindFreeframes cm n = .ok none ∧ n ≤ 1 ∧ cm.Picks b ∧
        cm' = Coremap.mark { cm with victimIndex := b } b n e)
  | .writing f _ => coremapFindFreeframes cm n = .ok none ∧ n ≤ 1 ∧ cm.Picks f ∧
      cm' = Coremap.setLock { cm with victimIndex := f } f true

theorem coremapGetBegin_coremap {e : Option PtPtr} {st : GetState}
    (h : coremapGetBegin k n e = .ok (st, k')) : k.coremap.GetBegun n e k'.coremap st := by
  obtain ⟨found, hfind, h⟩ := bind_eq_ok.mp h
  cases found with
  | some b =>
    cases h
    exact Or.inl ⟨hfind, rfl⟩
  | none =>
    obtain ⟨⟨f, writing, k₁⟩, hout, h⟩ := bind_eq_ok.mp h
    obtain ⟨hn, hpick, hcm⟩ := coremapSwapoutBegin_coremap hout
    cases writing with
    | false =>
      cases h
      refine Or.inr ⟨hfind, hn, hpick, ?_⟩
      change k₁.coremap.mark f n e = _
      rw [hcm]
      rfl
    | true =>
      obtain ⟨⟨s, k₂⟩, hswap, h⟩ := bind_eq_ok.mp h
      cases h
      exact ⟨hfind, hn, hpick, (swapOut_coremap hswap).trans hcm⟩

theorem coremapGetEnd_coremap {e : Option PtPtr} (h : coremapGetEnd k f s n e = .ok k') :
    k'.coremap = (k.coremap.setLock f false).mark f n e := by
  obtain ⟨k₁, hout, h⟩ := bind_eq_ok.mp h
  cases h
  change k₁.coremap.mark f n e = _
  rw [coremapSwapoutEnd_coremap hout]

theorem coremapGetppages_coremap {e : Option PtPtr} {r : ℕ × Kernel} (hn : 0 < n)
    (h : coremapGetppages k n e = .ok r) :
    ∃ b, r.1 = b * pageSize ∧ k.coremap.Grant n e b r.2.coremap := by
  obtain ⟨⟨st, k₁⟩, hbegin, h⟩ := bind_eq_ok.mp h
  have hbegun := coremapGetBegin_coremap hbegin
  cases st with
  | done b =>
    cases h
    refine ⟨b, rfl, ?_⟩
    rcases hbegun with ⟨hfind, hcm⟩ | ⟨hfind, hle, hpick, hcm⟩
    · exact .free hfind (freeRun_of_find hfind) hcm
    · obtain rfl : n = 1 := by omega
      obtain ⟨hsw, hu, -⟩ := hpick.victim
      exact .evicted _ rfl hfind hsw hu (.setVictim k.coremap b) hcm
  | writing f s =>
    obtain ⟨k₂, hend, h⟩ := bind_eq_ok.mp h
    cases h
    obtain ⟨hfind, hle, hpick, hcm⟩ := hbegun
    obtain rfl : n = 1 := by omega
    obtain ⟨hsw, hu, -⟩ := hpick.victim
    refine ⟨f, rfl, .evicted (k₁.coremap.setLock f false) rfl hfind hsw hu ?_ ?_⟩
    · rw [hcm]
      exact .setLock (.setLock (.setVictim k.coremap f) f true) f false
    · exact coremapGetEnd_coremap hend

end Grant

/-! ## The ledger -/

/-- The sizes in the coremap are `1` for the `r` reserved frames and those of `live`, the
blocks the callers hold, behind them. -/
structure Ledger (r : ℕ) (cm : Coremap) (live : ℕ → ℕ) : Prop where
  wf : cm.WF
  le : r ≤ cm.nRamFrames
  pos : 0 < cm.nRamFrames → 0 < r
  reserved : ∀ f < r, cm.size f = 1
  size : ∀ f < cm.nRamFrames, r ≤ f → cm.size f = live f
  range : ∀ f, 0 < live f → r ≤ f ∧ f < cm.nRamFrames
  owner : ∀ f < cm.nRamFrames, cm.used f = true → (cm.owner f).isSome → r ≤ f ∧ cm.size f = 1

namespace Ledger

variable {r : ℕ} {cm cm' : Coremap} {live : ℕ → ℕ} {n b h : ℕ} {e : Option PtPtr}

theorem initial {nRamFrames : ℕ} (hn : nRamFrames ≤ 2 ^ 17) (hr : r ≤ nRamFrames)
    (hpos : 0 < nRamFrames → 0 < r) : Ledger r (.initial nRamFrames r) fun _ => 0 := by
  refine ⟨Coremap.WF.initial hn, hr, hpos, fun f hf => by simp [hf], fun f _ hf => ?_,
    fun f hf => absurd hf (lt_irrefl 0), fun f _ _ ho => by simp at ho⟩
  simp [not_lt.mpr hf]

theorem of_bootstrap {ramsize firstfree : ℕ}
    (hb : coremapBootstrap ramsize firstfree = .ok cm)
    (hfit : reservedFrames cm.nRamFrames firstfree ≤ cm.nRamFrames) :
    Ledger (reservedFrames cm.nRamFrames firstfree) cm fun _ => 0 := by
  obtain ⟨hle, hcm⟩ := coremapBootstrap_eq_ok hb
  have := Ledger.initial hle hfit reservedFrames_pos
  rwa [← hcm] at this

theorem sameBlocks (hl : Ledger r cm live) (h : cm.SameBlocks cm') : Ledger r cm' live := by
  obtain ⟨hn, hu, hs, ho⟩ := h
  refine ⟨⟨?_, ?_⟩, ?_, ?_, ?_, ?_, ?_, ?_⟩
  · rw [hn, hu, hs]
    exact hl.wf.tiled
  · rw [hn]
    exact hl.wf.nRamFrames_le
  · rw [hn]
    exact hl.le
  · rw [hn]
    exact hl.pos
  · rw [hs]
    exact hl.reserved
  · rw [hn, hs]
    exact hl.size
  · rw [hn]
    exact hl.range
  · rw [hn, hu, hs, ho]
    exact hl.owner

/-- Free frames are not reserved. -/
theorem le_of_free (hl : Ledger r cm live) (hf : cm.used b = false) : r ≤ b := by
  by_contra hlt
  have := hl.wf.tiled.used_of_size (lt_of_lt_of_le (not_le.mp hlt) hl.le)
    (by rw [hl.reserved b (not_le.mp hlt)]; exact Nat.one_pos)
  rw [hf] at this
  cases this

theorem take_free (hl : Ledger r cm live) (hrun : cm.FreeRun n b) (hn : 0 < n)
    (he : e.isSome → n = 1) : Ledger r (cm.mark b n e) (update live b n) := by
  obtain ⟨hb, hfree⟩ := hrun
  have hrb := hl.le_of_free (hfree b le_rfl (by omega))
  have hmod : n % 2 ^ 20 = n := Nat.mod_eq_of_lt (by have := hl.wf.nRamFrames_le; omega)
  refine ⟨hl.wf.mark_free hn hb hfree, hl.le, hl.pos, fun f hf => ?_, fun f hf hrf => ?_,
    fun f hf => ?_, fun f hf hu ho => ?_⟩
  · rw [Coremap.size_mark, if_neg (by omega)]
    exact hl.reserved f hf
  · rw [Coremap.size_mark, hmod]
    by_cases hfb : f = b
    · simp [hfb]
    · simpa [hfb] using hl.size f hf hrf
  · by_cases hfb : f = b
    · subst hfb
      exact ⟨hrb, by simp only [Coremap.nRamFrames_mark]; omega⟩
    · rw [update_of_ne hfb] at hf
      exact hl.range f hf
  · rw [Coremap.owner_mark] at ho
    rw [Coremap.size_mark, hmod]
    split_ifs at ho with hin
    · obtain rfl := he ho
      obtain rfl : f = b := by omega
      exact ⟨hrb, if_pos rfl⟩
    · rw [Coremap.used_mark, if_neg hin] at hu
      rw [if_neg (by omega)]
      exact hl.owner f hf hu ho

theorem take_one (hl : Ledger r cm live) (hb : b < cm.nRamFrames) (hu : cm.used b = true)
    (ho : (cm.owner b).isSome) : live b = 1 ∧
      Ledger r (cm.mark b 1 e) (update live b 1) := by
  obtain ⟨hrb, hs⟩ := hl.owner b hb hu ho
  have hlb : live b = 1 := by rw [← hl.size b hb hrb, hs]
  have hsize : ∀ f, (cm.mark b 1 e).size f = cm.size f := by
    intro f
    rw [Coremap.size_mark]
    split_ifs with hf
    · rw [hf, hs]
      rfl
    · rfl
  have hlive : update live b 1 = live := by
    rw [← hlb, update_eq_self]
  rw [hlive]
  refine ⟨hlb, hl.wf.mark_one hu hs, hl.le, hl.pos, ?_, ?_, hl.range, fun f hf hu' ho' => ?_⟩
  · intro f hf
    rw [hsize]
    exact hl.reserved f hf
  · intro f hf hrf
    rw [hsize]
    exact hl.size f hf hrf
  · rw [hsize]
    by_cases hfb : f = b
    · subst hfb
      exact ⟨hrb, hs⟩
    · have hin : ¬(b ≤ f ∧ f < b + 1) := by omega
      rw [Coremap.owner_mark, if_neg hin] at ho'
      rw [Coremap.used_mark, if_neg hin] at hu'
      exact hl.owner f hf hu' ho'

theorem release (hl : Ledger r cm live) (hh : 0 < live h) :
    Ledger r (cm.release h) (update live h 0) := by
  obtain ⟨hrh, hlt⟩ := hl.range h hh
  refine ⟨hl.wf.release hlt, hl.le, hl.pos, fun f hf => ?_, fun f hf hrf => ?_, fun f hf => ?_,
    fun f hf hu ho => ?_⟩
  · rw [Coremap.size_release, if_neg (by omega)]
    exact hl.reserved f hf
  · by_cases hfh : f = h
    · simp [hfh]
    · simpa [hfh] using hl.size f hf hrf
  · by_cases hfh : f = h
    · simp [hfh] at hf
    · rw [update_of_ne hfh] at hf
      exact hl.range f hf
  · rw [Coremap.used_release] at hu
    split_ifs at hu with hin
    have hfh : f ≠ h := by
      rintro rfl
      exact hin ⟨le_rfl, by rw [hl.size f hlt hrh]; omega⟩
    rw [Coremap.size_release, if_neg hfh]
    exact hl.owner f hf hu ho

/-- A request keeps the ledger. -/
theorem grant (hl : Ledger r cm live) (hg : cm.Grant n e b cm') (hn : 0 < n)
    (he : e.isSome → n = 1) : Ledger r cm' (update live b n) := by
  cases hg with
  | free _ hrun hcm =>
    subst hcm
    exact hl.take_free hrun hn he
  | evicted cm₁ hn1 _ hsw hu hsame hcm =>
    subst hcm hn1
    refine ((hl.sameBlocks hsame).take_one ?_ ?_ ?_).2
    · rw [hsame.nRamFrames]
      exact hsw.1
    · rw [hsame.used]
      exact hu
    · rw [hsame.owner]
      exact hsw.2.1

end Ledger

/-- The used frames are the reserved frames and the disjoint union of the blocks in `live`,
whose sizes stand at their heads and nowhere else. -/
structure BlocksOk (r : ℕ) (cm : Coremap) (live : ℕ → ℕ) : Prop where
  used_iff : ∀ f < cm.nRamFrames, cm.used f = true ↔ f < r ∨ ∃ h ≤ f, f < h + live h
  size_reserved : ∀ f < r, cm.size f = 1
  size_live : ∀ h, 0 < live h → cm.size h = live h
  size_zero : ∀ f < cm.nRamFrames, r ≤ f → live f = 0 → cm.size f = 0
  range : ∀ h, 0 < live h → h ≠ 0 ∧ r ≤ h ∧ h + live h ≤ cm.nRamFrames
  disjoint : ∀ h h', 0 < live h → 0 < live h' → h ≠ h' → h + live h ≤ h' ∨ h' + live h' ≤ h

theorem Ledger.blocksOk {r : ℕ} {cm : Coremap} {live : ℕ → ℕ} (hl : Ledger r cm live) :
    BlocksOk r cm live := by
  have hsize : ∀ h, 0 < live h → cm.size h = live h := fun h hh =>
    hl.size h (hl.range h hh).2 (hl.range h hh).1
  refine ⟨fun f hf => ⟨fun hu => ?_, ?_⟩, hl.reserved, hsize, fun f hf hr h0 => ?_, fun h hh => ?_,
    fun h h' hh hh' hne => ?_⟩
  · obtain ⟨h, hle, hlt⟩ := hl.wf.tiled.cover f hf hu
    by_cases hr : h < r
    · rw [hl.reserved h hr] at hlt
      exact Or.inl (by omega)
    · rw [hl.size h (by omega) (not_lt.mp hr)] at hlt
      exact Or.inr ⟨h, hle, hlt⟩
  · rintro (hr | ⟨h, hle, hlt⟩)
    · exact hl.wf.tiled.used_of_size hf (by rw [hl.reserved f hr]; exact Nat.one_pos)
    · refine hl.wf.tiled.used_of_mem (by omega) hle ?_
      rwa [hsize h (by omega)]
  · rw [hl.size f hf hr, h0]
  · obtain ⟨hr, hlt⟩ := hl.range h hh
    have := hl.pos (by omega)
    have hb := hl.wf.tiled.bound h hlt
    rw [hsize h hh] at hb
    exact ⟨by omega, hr, hb⟩
  · have hd := hl.wf.tiled.disjoint (hl.range h hh).2 (hl.range h' hh').2 hne
      (by rwa [hsize h hh]) (by rwa [hsize h' hh'])
    rwa [hsize h hh, hsize h' hh'] at hd

/-! ## Runs -/

/-- The kernel and the ledger : for each frame, the size of the block that was returned there
and is still held, or `0`. -/
structure BlockSys where
  kernel : Kernel
  live : ℕ → ℕ

/-- What a call did to the blocks. -/
inductive BlockEvent
  | got (npages : ℕ) (ptentry : Option PtPtr) (beginning : ℕ)
  | freed (beginning : ℕ)
  | other

namespace BlockSys

/-- A request, a free of a block that is held, or a change to anything but the coremap. -/
def Step (s : BlockSys) : BlockEvent → BlockSys → Prop
  | .got n e b, s' => 0 < n ∧ (e.isSome → n = 1) ∧ ∃ k,
      coremapGetppages s.kernel n e = .ok (b * pageSize, k) ∧ s' = ⟨k, update s.live b n⟩
  | .freed h, s' => 0 < s.live h ∧ ∃ cm,
      coremapFreeppages s.kernel.coremap (h * pageSize) = .ok cm ∧
        s' = ⟨{ s.kernel with coremap := cm }, update s.live h 0⟩
  | .other, s' => s'.kernel.coremap = s.kernel.coremap ∧ s'.live = s.live

variable {s s' : BlockSys} {ev : BlockEvent} {r : ℕ}

theorem free_spec {h : ℕ} (hl : Ledger r s.kernel.coremap s.live) (hh : 0 < s.live h) :
    coremapFreeppages s.kernel.coremap (h * pageSize) = .ok (s.kernel.coremap.release h) := by
  obtain ⟨hr, hlt⟩ := hl.range h hh
  exact coremapFreeppages_eq hl.wf hlt (by rwa [hl.size h hlt hr])

theorem step_ledger (hl : Ledger r s.kernel.coremap s.live) (h : s.Step ev s') :
    Ledger r s'.kernel.coremap s'.live := by
  cases ev with
  | got n e b =>
    obtain ⟨hn, he, k, hget, rfl⟩ := h
    obtain ⟨b', hb, hg⟩ := coremapGetppages_coremap hn hget
    obtain rfl := Nat.eq_of_mul_eq_mul_right pageSize_pos hb
    exact hl.grant hg hn he
  | freed h =>
    obtain ⟨hh, cm, hfree, rfl⟩ := h
    rw [free_spec hl hh] at hfree
    cases hfree
    exact hl.release hh
  | other =>
    obtain ⟨hcm, hlive⟩ := h
    rw [hcm, hlive]
    exact hl

/-- What a request that returned `addr` got : a block in RAM behind the reserved frames, of
frames the search found free, or of the frame of a page if there was no free frame. -/
def Taken (s : BlockSys) (r n addr : ℕ) : Prop :=
  ∃ b, addr = b * pageSize ∧ b ≠ 0 ∧ r ≤ b ∧ b + n ≤ s.kernel.coremap.nRamFrames ∧
    ((coremapFindFreeframes s.kernel.coremap n = .ok (some b) ∧
        ∀ f, b ≤ f → f < b + n → s.kernel.coremap.used f = false) ∨
      (coremapFindFreeframes s.kernel.coremap n = .ok none ∧ n = 1 ∧ s.live b = 1))

theorem taken_of_get {n : ℕ} {e : Option PtPtr} {res : ℕ × Kernel}
    (hl : Ledger r s.kernel.coremap s.live) (hn : 0 < n)
    (h : coremapGetppages s.kernel n e = .ok res) : s.Taken r n res.1 := by
  obtain ⟨b, hb, hg⟩ := coremapGetppages_coremap hn h
  cases hg with
  | free hfind hrun _ =>
    have hr := hl.le_of_free (hrun.2 b le_rfl (by omega))
    have := hl.pos (by have := hrun.1; omega)
    exact ⟨b, hb, by omega, hr, hrun.1, Or.inl ⟨hfind, hrun.2⟩⟩
  | evicted cm₁ hn1 hfind hsw hu _ _ =>
    obtain ⟨hr, hs⟩ := hl.owner b hsw.1 hu hsw.2.1
    have := hl.pos (Nat.zero_lt_of_lt hsw.1)
    have := hsw.1
    refine ⟨b, hb, by omega, hr, by omega, Or.inr ⟨hfind, hn1, ?_⟩⟩
    rw [← hl.size b hsw.1 hr, hs]

/-- The step of an event with the result it states, for concrete runs. -/
def next (s : BlockSys) : BlockEvent → Option (BlockEvent × BlockSys)
  | .got n e b =>
    match coremapGetppages s.kernel n e with
    | .ok (addr, k) =>
      if 0 < n ∧ (e.isSome → n = 1) ∧ addr = b * pageSize then
        some (.got n e b, ⟨k, update s.live b n⟩)
      else none
    | .error _ => none
  | .freed h =>
    match coremapFreeppages s.kernel.coremap (h * pageSize) with
    | .ok cm =>
      if 0 < s.live h then
        some (.freed h, ⟨{ s.kernel with coremap := cm }, update s.live h 0⟩)
      else none
    | .error _ => none
  | .other => some (.other, s)

theorem step_of_next {op : BlockEvent} (h : s.next op = some (ev, s')) : s.Step ev s' := by
  cases op with
  | got n e b =>
    simp only [next] at h
    split at h
    · rename_i addr k hget
      split_ifs at h with hc
      obtain ⟨hn, he, rfl⟩ := hc
      cases h
      exact ⟨hn, he, k, hget, rfl⟩
    · cases h
  | freed b =>
    simp only [next] at h
    split at h
    · rename_i cm hfree
      split_ifs at h with hb
      cases h
      exact ⟨hb, cm, hfree, rfl⟩
    · cases h
  | other =>
    cases h
    exact ⟨rfl, rfl⟩

end BlockSys

/-- From booting on, whatever the order of requests and frees, the used frames are the
reserved frames and the blocks that are held; a free of a block frees exactly its frames; a
request returns free frames, or the frame of an evicted page, that overlap nothing else. -/
theorem coremap_blocks {ramsize firstfree : ℕ} {k : Kernel} {s : BlockSys} {tr : List BlockEvent}
    (hb : coremapBootstrap ramsize firstfree = .ok k.coremap)
    (hfit : reservedFrames k.coremap.nRamFrames firstfree ≤ k.coremap.nRamFrames)
    (hr : Run BlockSys.Step ⟨k, fun _ => 0⟩ tr s) :
    BlocksOk (reservedFrames k.coremap.nRamFrames firstfree) s.kernel.coremap s.live ∧
    (∀ h, 0 < s.live h → ∃ cm, coremapFreeppages s.kernel.coremap (h * pageSize) = .ok cm ∧
      ∀ f, cm.used f = if h ≤ f ∧ f < h + s.live h then false else s.kernel.coremap.used f) ∧
    ∀ n e addr k', 0 < n → (e.isSome → n = 1) →
      coremapGetppages s.kernel n e = .ok (addr, k') →
        s.Taken (reservedFrames k.coremap.nRamFrames firstfree) n addr := by
  have hl : Ledger (reservedFrames k.coremap.nRamFrames firstfree) s.kernel.coremap s.live :=
    hr.invariant (I := fun s => Ledger (reservedFrames k.coremap.nRamFrames firstfree)
      s.kernel.coremap s.live) (.of_bootstrap hb hfit) fun _ _ _ hl hs => BlockSys.step_ledger hl hs
  refine ⟨hl.blocksOk, fun h hh => ⟨_, BlockSys.free_spec hl hh, fun f => ?_⟩, ?_⟩
  · rw [Coremap.used_release, hl.size h (hl.range h hh).2 (hl.range h hh).1]
  · intro n e addr k' hn he hget
    exact BlockSys.taken_of_get hl hn hget

/-- A kernel block, a page, a free, and a second page that finds no free frame. -/
theorem coremap_blocks_small : ∃ tr s,
    Run BlockSys.Step ⟨(Sys.small 5).kernel, fun _ => 0⟩ tr s ∧ s.live 2 = 1 ∧ s.live 3 = 2 ∧
      BlocksOk 2 s.kernel.coremap s.live := by
  obtain ⟨tr, s, hrun, h2, h3⟩ := Run.exists_of_execute BlockSys.next BlockSys.step_of_next
    ⟨(Sys.small 5).kernel, fun _ => 0⟩ [.got 1 none 2, .got 2 none 3, .freed 2,
      .got 1 (some ⟨1, 0⟩) 2, .got 1 (some ⟨1, 1⟩) 2]
    (fun _ s => s.live 2 = 1 ∧ s.live 3 = 2) (by decide +kernel)
  have hres : reservedFrames 5 (paddrToKvaddr pageSize) = 2 := by
    rw [reservedFrames, kvaddrToPaddr_paddrToKvaddr]
    rfl
  have hboot : coremapBootstrap (5 * pageSize) (paddrToKvaddr pageSize) =
      .ok (Sys.small 5).kernel.coremap := by
    refine coremapBootstrap_eq (by decide) ?_
    rw [kvaddrToPaddr_paddrToKvaddr]
    rfl
  have hfit : reservedFrames (Sys.small 5).kernel.coremap.nRamFrames (paddrToKvaddr pageSize) ≤
      (Sys.small 5).kernel.coremap.nRamFrames := by
    change reservedFrames 5 _ ≤ 5
    rw [hres]
    decide
  have hok := (coremap_blocks hboot hfit hrun).1
  change BlocksOk (reservedFrames 5 _) _ _ at hok
  rw [hres] at hok
  exact ⟨tr, s, hrun, h2, h3, hok⟩

end OS161
