import OS161.Blocks

/-!
# Frees that are interrupted

`coremap_freeppages` reads the size of the block and clears it before it takes the spinlock,
and marks the frames free after. `Allocators` runs any number of threads that call
`coremap_getppages` and `coremap_freeppages`, with these two parts of a free as two steps and
with threads that wait for a swap-out. Everything that does not write the coremap may happen
in between.

The invariant compares the coremap with the one in which the interrupted frees have not begun
(`HalfFreed`), which the blocks tile. So a thread that takes the spinlock finds a size at the
head of every block exactly if no free is interrupted (`scan_safe_iff`), and then its search
ends. Otherwise the search may reach the head without a size and never leave it
(`scan_stuck_small`).
-/

namespace OS161

open Function

/-! ## The threads -/

/-- Where a thread stands in the coremap : between the two parts of a free, or in the
swap-out of its victim. -/
inductive Task
  | freeing (first allocSize : ℕ)
  | writing (victim swapIndex : ℕ) (ptentry : Option PtPtr)

/-- The frame a thread is at. -/
def Task.frame : Task → ℕ
  | .freeing first _ => first
  | .writing victim _ _ => victim

/-- The kernel, the threads, and for each frame the size of the block that was returned there
and is not free again, or `0`. -/
structure Allocators where
  kernel : Kernel
  task : ℕ → Option Task
  live : ℕ → ℕ

/-- A call of `coremap_getppages`, up to its `spinlock_release` or up to `swap_out`; the rest
of it after `swap_out`; the part of `coremap_freeppages` before its `spinlock_acquire`; the
rest of it; anything that does not write the coremap. -/
inductive AllocOp
  | get (t npages : ℕ) (ptentry : Option PtPtr)
  | resume (t : ℕ)
  | freeBegin (t first : ℕ)
  | freeEnd (t : ℕ)
  | other (kernel : Kernel)

namespace Allocators

/-- What the callers promise : a thread does one thing at a time, a page is one frame, and
only a block that is held and that no thread works on is freed. -/
def Allowed (s : Allocators) : AllocOp → Prop
  | .get t npages ptentry => s.task t = none ∧ 0 < npages ∧ (ptentry.isSome → npages = 1)
  | .resume t => ∃ f i e, s.task t = some (.writing f i e)
  | .freeBegin t first => s.task t = none ∧ 0 < s.live first ∧
      ∀ t' w, s.task t' = some w → w.frame ≠ first
  | .freeEnd t => ∃ h n, s.task t = some (.freeing h n)
  | .other kernel => kernel.coremap = s.kernel.coremap

/-- Run an operation. -/
def exec (s : Allocators) : AllocOp → Except Halt Allocators
  | .get t npages ptentry => do
    match ← coremapGetBegin s.kernel npages ptentry with
    | (.done beginning, k) => .ok ⟨k, s.task, update s.live beginning npages⟩
    | (.writing victim swapIndex, k) =>
      .ok ⟨k, update s.task t (some (.writing victim swapIndex ptentry)), s.live⟩
  | .resume t =>
    match s.task t with
    | some (.writing victim swapIndex ptentry) => do
      let k ← coremapGetEnd s.kernel victim swapIndex 1 ptentry
      .ok ⟨k, update s.task t none, s.live⟩
    | _ => .ok s
  | .freeBegin t first => do
    let (first, allocSize, cm) ← coremapFreeBegin s.kernel.coremap (first * pageSize)
    .ok ⟨{ s.kernel with coremap := cm },
      update s.task t (some (.freeing first allocSize)), s.live⟩
  | .freeEnd t =>
    match s.task t with
    | some (.freeing first allocSize) => do
      let cm ← coremapFreeLoop allocSize first s.kernel.coremap
      .ok ⟨{ s.kernel with coremap := cm }, update s.task t none,
        update s.live first 0⟩
    | _ => .ok s
  | .other kernel => .ok { s with kernel := kernel }

/-- One step of a thread that does not stop the machine. -/
def Step (s : Allocators) (op : AllocOp) (s' : Allocators) : Prop :=
  s.Allowed op ∧ s.exec op = .ok s'

end Allocators

/-- A thread is between the two parts of a free of the block at `h`. -/
def Freeing (task : ℕ → Option Task) (h : ℕ) : Prop :=
  ∃ t n, task t = some (.freeing h n)

/-! ## The invariant -/

/-- The coremap `whole` is `cm` as it would be if the frees of `freeing` had not begun. -/
structure HalfFreed (freeing : ℕ → Prop) (cm whole : Coremap) : Prop where
  nRamFrames : whole.nRamFrames = cm.nRamFrames
  used : whole.used = cm.used
  owner : whole.owner = cm.owner
  size_freeing : ∀ h, freeing h → cm.size h = 0
  size : ∀ h, ¬freeing h → cm.size h = whole.size h

namespace HalfFreed

variable {freeing : ℕ → Prop} {cm cm' whole : Coremap} {b n h : ℕ} {e : Option PtPtr}

theorem sameBlocks (hw : HalfFreed freeing cm whole) (hs : cm.SameBlocks cm') :
    HalfFreed freeing cm' whole :=
  ⟨hw.nRamFrames.trans hs.nRamFrames.symm, hw.used.trans hs.used.symm,
    hw.owner.trans hs.owner.symm, fun h hh => by rw [hs.size, hw.size_freeing h hh],
    fun h hh => by rw [hs.size, hw.size h hh]⟩

/-- Frames are taken at the head of a block no thread frees. -/
theorem mark (hw : HalfFreed freeing cm whole) (hb : ¬freeing b) :
    HalfFreed freeing (cm.mark b n e) (whole.mark b n e) := by
  refine ⟨hw.nRamFrames, ?_, ?_, fun h hh => ?_, fun h hh => ?_⟩
  · funext f
    rw [Coremap.used_mark, Coremap.used_mark, hw.used]
  · funext f
    rw [Coremap.owner_mark, Coremap.owner_mark, hw.owner]
  · have hne : h ≠ b := by
      rintro rfl
      exact hb hh
    rw [Coremap.size_mark, if_neg hne, hw.size_freeing h hh]
  · rw [Coremap.size_mark, Coremap.size_mark, hw.size h hh]

/-- A free begins. -/
theorem begin (hw : HalfFreed freeing cm whole) :
    HalfFreed (fun f => f = h ∨ freeing f) (cm.setSize h 0) whole := by
  refine ⟨hw.nRamFrames, ?_, ?_, fun f hf => ?_, fun f hf => ?_⟩
  · funext f
    rw [Coremap.used_setSize, hw.used]
  · funext f
    rw [Coremap.owner_setSize, hw.owner]
  · rw [Coremap.size_setSize]
    split_ifs with hfh
    · rfl
    · exact hw.size_freeing f (hf.resolve_left hfh)
  · obtain ⟨h1, h2⟩ := not_or.mp hf
    rw [Coremap.size_setSize, if_neg h1, hw.size f h2]

/-- A free ends. -/
theorem release (hw : HalfFreed (fun f => f = h ∨ freeing f) cm whole) :
    HalfFreed freeing (cm.clear h (whole.size h)) (whole.release h) := by
  refine ⟨hw.nRamFrames, ?_, ?_, fun f hf => ?_, fun f hf => ?_⟩
  · funext f
    rw [Coremap.used_release, Coremap.used_clear, hw.used]
  · funext f
    rw [Coremap.owner_release, Coremap.owner_clear, hw.owner]
  · rw [Coremap.size_clear, hw.size_freeing f (Or.inr hf)]
  · rw [Coremap.size_clear, Coremap.size_release]
    split_ifs with hfh
    · exact hw.size_freeing f (Or.inl hfh)
    · exact hw.size f (not_or.mpr ⟨hfh, hf⟩)

end HalfFreed

/-- What a thread relies on : the block it frees is still recorded as held, and its victim
is still the locked frame of a page. -/
def Task.Ok (cm : Coremap) (live : ℕ → ℕ) : Task → Prop
  | .freeing first allocSize => 0 < allocSize ∧ live first = allocSize
  | .writing victim _ _ => victim < cm.nRamFrames ∧ cm.used victim = true ∧
      (cm.owner victim).isSome ∧ cm.locked victim = true

/-- A thread relies only on its own frame. -/
theorem Task.Ok.congr {w : Task} {cm cm' : Coremap} {live live' : ℕ → ℕ} (h : w.Ok cm live)
    (hn : cm'.nRamFrames = cm.nRamFrames) (hu : cm'.used w.frame = cm.used w.frame)
    (ho : cm'.owner w.frame = cm.owner w.frame)
    (hl : cm.locked w.frame = true → cm'.locked w.frame = true)
    (hlive : live' w.frame = live w.frame) : w.Ok cm' live' := by
  cases w with
  | freeing first allocSize => exact ⟨h.1, hlive.trans h.2⟩
  | writing victim i e =>
    exact ⟨hn ▸ h.1, hu.trans h.2.1, (congrArg Option.isSome ho).trans h.2.2.1, hl h.2.2.2⟩

/-- A thread does not notice frames that are taken elsewhere. -/
theorem Task.Ok.mark {w : Task} {cm : Coremap} {live : ℕ → ℕ} {b n : ℕ} {e : Option PtPtr}
    (h : w.Ok cm live) (hn : 0 < n) (hout : ¬(b ≤ w.frame ∧ w.frame < b + n)) :
    w.Ok (cm.mark b n e) (update live b n) := by
  refine h.congr rfl ?_ ?_ (fun hl => ?_) (update_of_ne (fun hb => hout ?_) _ _)
  · rw [Coremap.used_mark, if_neg hout]
  · rw [Coremap.owner_mark, if_neg hout]
  · rw [Coremap.locked_mark, hl]
  · omega

/-- The invariant, for `r` reserved frames. -/
structure AllocInv (r : ℕ) (cm : Coremap) (task : ℕ → Option Task) (live : ℕ → ℕ) : Prop where
  whole : ∃ whole, HalfFreed (Freeing task) cm whole ∧ Ledger r whole live
  tasks : ∀ t w, task t = some w → w.Ok cm live
  inj : ∀ t t' w w', task t = some w → task t' = some w' → w.frame = w'.frame → t = t'

/-- A thread that frees nothing starts or ends its task. -/
theorem freeing_update {task : ℕ → Option Task} {t : ℕ} (w : Option Task)
    (ht : ∀ h n, task t ≠ some (.freeing h n)) (h : ℕ) :
    Freeing (update task t w) h ↔ (∃ n, w = some (.freeing h n)) ∨ Freeing task h := by
  constructor
  · rintro ⟨t', n, ht'⟩
    by_cases htt : t' = t
    · subst htt
      rw [update_self] at ht'
      exact Or.inl ⟨n, ht'⟩
    · rw [update_of_ne htt] at ht'
      exact Or.inr ⟨t', n, ht'⟩
  · rintro (⟨n, rfl⟩ | ⟨t', n, ht'⟩)
    · exact ⟨t, n, update_self ..⟩
    · have htt : t' ≠ t := by
        rintro rfl
        exact ht h n ht'
      exact ⟨t', n, by rw [update_of_ne htt, ht']⟩

namespace AllocInv

variable {r : ℕ} {cm cm' : Coremap} {task : ℕ → Option Task} {live : ℕ → ℕ} {t b f n h : ℕ}
  {e : Option PtPtr} {w : Task}

/-- The frame a thread works on is in use. -/
theorem used_frame (hi : AllocInv r cm task live) (ht : task t = some w) :
    cm.used w.frame = true := by
  have hok := hi.tasks t w ht
  cases w with
  | freeing h n =>
    obtain ⟨whole, hw, hl⟩ := hi.whole
    obtain ⟨hn, rfl⟩ := hok
    obtain ⟨hr, hlt⟩ := hl.range h hn
    have hsize : 0 < whole.size h := by rwa [hl.size h hlt hr]
    rw [← hw.used]
    exact hl.wf.tiled.used_of_size hlt hsize
  | writing f i e => exact hok.2.1

/-- The size of a block a thread frees is cleared. -/
theorem size_freeing (hi : AllocInv r cm task live) (hf : Freeing task h) : cm.size h = 0 := by
  obtain ⟨whole, hw, -⟩ := hi.whole
  exact hw.size_freeing h hf

/-- The tasks of the other threads, when thread `t` starts or ends one. -/
theorem tasks_update {x : Option Task} {live' : ℕ → ℕ}
    (hother : ∀ t' w, t' ≠ t → task t' = some w → w.Ok cm' live')
    (hself : ∀ w, x = some w → w.Ok cm' live') :
    ∀ t' w, update task t x t' = some w → w.Ok cm' live' := by
  intro t' w hw
  by_cases htt : t' = t
  · subst htt
    exact hself w (by rwa [update_self] at hw)
  · exact hother t' w htt (by rwa [update_of_ne htt] at hw)

theorem inj_update (hi : AllocInv r cm task live) {x : Option Task}
    (hx : ∀ w, x = some w → ∀ t' w', t' ≠ t → task t' = some w' → w'.frame ≠ w.frame) :
    ∀ t₁ t₂ w₁ w₂, update task t x t₁ = some w₁ → update task t x t₂ = some w₂ →
      w₁.frame = w₂.frame → t₁ = t₂ := by
  intro t₁ t₂ w₁ w₂ h₁ h₂ hf
  by_cases ht₁ : t₁ = t <;> by_cases ht₂ : t₂ = t
  · rw [ht₁, ht₂]
  · rw [ht₁, update_self] at h₁
    rw [update_of_ne ht₂] at h₂
    exact absurd hf.symm (hx w₁ h₁ t₂ w₂ ht₂ h₂)
  · rw [ht₂, update_self] at h₂
    rw [update_of_ne ht₁] at h₁
    exact absurd hf (hx w₂ h₂ t₁ w₁ ht₁ h₁)
  · rw [update_of_ne ht₁] at h₁
    rw [update_of_ne ht₂] at h₂
    exact hi.inj t₁ t₂ w₁ w₂ h₁ h₂ hf

/-- Free frames are taken. -/
theorem take_free (hi : AllocInv r cm task live) (hrun : cm.FreeRun n b) (hn : 0 < n)
    (he : e.isSome → n = 1) :
    AllocInv r (cm.mark b n e) task (update live b n) := by
  obtain ⟨whole, hw, hl⟩ := hi.whole
  have hout : ∀ t w, task t = some w → ¬(b ≤ w.frame ∧ w.frame < b + n) := by
    rintro t w ht ⟨h1, h2⟩
    have := hi.used_frame ht
    rw [hrun.2 _ h1 h2] at this
    cases this
  have hb : ¬Freeing task b := by
    rintro ⟨t, m, ht⟩
    exact hout t _ ht ⟨le_rfl, Nat.lt_add_of_pos_right hn⟩
  have hrun' : whole.FreeRun n b := ⟨hw.nRamFrames ▸ hrun.1, by rw [hw.used]; exact hrun.2⟩
  exact ⟨⟨_, hw.mark hb, hl.take_free hrun' hn he⟩,
    fun t w ht => (hi.tasks t w ht).mark hn (hout t w ht), hi.inj⟩

/-- Only locks and the victim index change. -/
theorem relock (hi : AllocInv r cm task live) (hs : cm.SameBlocks cm')
    (hlock : ∀ f, cm.locked f = true → cm'.locked f = true) : AllocInv r cm' task live := by
  obtain ⟨whole, hw, hl⟩ := hi.whole
  refine ⟨⟨whole, hw.sameBlocks hs, hl⟩, fun t w ht => (hi.tasks t w ht).congr hs.nRamFrames
    (congrFun hs.used _) (congrFun hs.owner _) (hlock _) rfl, hi.inj⟩

/-- The frame of a page is taken, which no thread works on. -/
theorem take_one (hi : AllocInv r cm task live) (hb : b < cm.nRamFrames) (hu : cm.used b = true)
    (ho : (cm.owner b).isSome) (hne : ∀ t w, task t = some w → w.frame ≠ b) :
    AllocInv r (cm.mark b 1 e) task (update live b 1) := by
  obtain ⟨whole, hw, hl⟩ := hi.whole
  have hfree : ¬Freeing task b := by
    rintro ⟨t, m, ht⟩
    exact hne t _ ht rfl
  have hlb := (hl.take_one (e := e) (hw.nRamFrames ▸ hb) (by rw [hw.used, hu])
    (by rw [hw.owner]; exact ho)).2
  refine ⟨⟨_, hw.mark hfree, hlb⟩, fun t w ht => (hi.tasks t w ht).mark Nat.one_pos ?_, hi.inj⟩
  have := hne t w ht
  omega

/-- No thread works on a frame that is not locked and has a size. -/
theorem ne_frame (hi : AllocInv r cm task live) (hlock : cm.locked f = false)
    (hs : cm.size f = 1) : ∀ t w, task t = some w → w.frame ≠ f := by
  rintro t w ht rfl
  have hok := hi.tasks t w ht
  cases w with
  | freeing h m =>
    have : cm.size h = 1 := hs
    rw [hi.size_freeing ⟨t, m, ht⟩] at this
    cases this
  | writing f i e' =>
    have : cm.locked f = false := hlock
    rw [hok.2.2.2] at this
    cases this

/-- A thread locks its victim and waits for the swap-out. -/
theorem lock {i : ℕ} (hi : AllocInv r cm task live) (ht : task t = none) (hsw : cm.Swappable f)
    (hu : cm.used f = true) (hs : cm.size f = 1) :
    AllocInv r (Coremap.setLock { cm with victimIndex := f } f true)
      (update task t (some (.writing f i e))) live := by
  have hsame : cm.SameBlocks (Coremap.setLock { cm with victimIndex := f } f true) :=
    .setLock (.setVictim cm f) f true
  have hlock : ∀ f', cm.locked f' = true →
      (Coremap.setLock { cm with victimIndex := f } f true).locked f' = true := by
    intro f' hf'
    rw [Coremap.locked_setLock]
    split_ifs
    · rfl
    · exact hf'
  have hi' := hi.relock hsame hlock
  obtain ⟨whole, hw, hl⟩ := hi'.whole
  have hfr : Freeing (update task t (some (.writing f i e))) = Freeing task := by
    funext h
    rw [eq_iff_iff, freeing_update _ (by simp [ht])]
    simp
  refine ⟨⟨whole, hfr ▸ hw, hl⟩, tasks_update (fun t' w _ => hi'.tasks t' w) ?_, hi'.inj_update ?_⟩
  · rintro w hx
    cases hx
    refine ⟨hsw.1, ?_, ?_, ?_⟩
    · rw [hsame.used, hu]
    · rw [hsame.owner]
      exact hsw.2.1
    · rw [Coremap.locked_setLock, if_pos rfl]
  · rintro w hx t' w' - ht'
    cases hx
    exact hi.ne_frame hsw.2.2 hs t' w' ht'

/-- The swap-out of a thread is over, and the thread takes its victim. -/
theorem unlock {i : ℕ} {e' : Option PtPtr} (hi : AllocInv r cm task live)
    (ht : task t = some (.writing f i e')) :
    AllocInv r ((cm.setLock f false).mark f 1 e) (update task t none) live := by
  obtain ⟨hlt, hu, ho, -⟩ := hi.tasks t _ ht
  have hother : ∀ t' w, t' ≠ t → task t' = some w → w.frame ≠ f := fun t' w htt ht' hf =>
    htt (hi.inj t' t w _ ht' ht hf)
  have hsame : cm.SameBlocks (cm.setLock f false) := .setLock (.refl cm) f false
  obtain ⟨whole, hw, hl⟩ := hi.whole
  have hfr : Freeing (update task t none) = Freeing task := by
    funext h
    rw [eq_iff_iff, freeing_update _ (by simp [ht])]
    simp
  have hmid : AllocInv r (cm.setLock f false) (update task t none) live := by
    refine ⟨⟨whole, hfr ▸ hw.sameBlocks hsame, hl⟩, tasks_update (fun t' w htt ht' => ?_) nofun,
      hi.inj_update nofun⟩
    refine (hi.tasks t' w ht').congr rfl (congrFun hsame.used _) (congrFun hsame.owner _)
      (fun hlk => ?_) rfl
    rw [Coremap.locked_setLock, if_neg (hother t' w htt ht'), hlk]
  have hlive : update live f 1 = live := by
    have := (hl.take_one (e := e) (hw.nRamFrames ▸ hlt) (by rw [hw.used, hu])
      (by rw [hw.owner]; exact ho)).1
    rw [← this, update_eq_self]
  have htake := hmid.take_one (e := e) hlt (by rw [hsame.used, hu]) (by rw [hsame.owner]; exact ho)
    fun t' w ht' hf => by
      by_cases htt : t' = t
      · rw [htt, update_self] at ht'
        cases ht'
      · rw [update_of_ne htt] at ht'
        exact hother t' w htt ht' hf
  rwa [hlive] at htake

/-- The size of a block that no thread frees. -/
theorem size_live (hi : AllocInv r cm task live) (hl : 0 < live h) (hf : ¬Freeing task h) :
    h < cm.nRamFrames ∧ cm.size h = live h := by
  obtain ⟨whole, hw, hled⟩ := hi.whole
  obtain ⟨hr, hlt⟩ := hled.range h hl
  exact ⟨hw.nRamFrames ▸ hlt, by rw [hw.size h hf, hled.size h hlt hr]⟩

/-- The first part of a free. -/
theorem freeBegin (hi : AllocInv r cm task live) (ht : task t = none) (hh : 0 < live h)
    (hne : ∀ t' w, task t' = some w → w.frame ≠ h) :
    AllocInv r (cm.setSize h 0) (update task t (some (.freeing h (live h)))) live := by
  obtain ⟨whole, hw, hl⟩ := hi.whole
  have hfr : Freeing (update task t (some (.freeing h (live h)))) =
      fun f => f = h ∨ Freeing task f := by
    funext f
    rw [eq_iff_iff, freeing_update _ (by simp [ht])]
    simp [eq_comm]
  refine ⟨⟨whole, hfr ▸ hw.begin, hl⟩, tasks_update (fun t' w _ ht' => ?_) ?_, hi.inj_update ?_⟩
  · exact (hi.tasks t' w ht').congr rfl Coremap.used_setSize Coremap.owner_setSize
      (fun hlk => by rw [Coremap.locked_setSize, hlk]) rfl
  · rintro w hx
    cases hx
    exact ⟨hh, rfl⟩
  · rintro w hx t' w' - ht'
    cases hx
    exact hne t' w' ht'

/-- A frame a thread works on lies in no block but its own. -/
theorem frame_head (hi : AllocInv r cm task live) (ht : task t = some w) (hh : 0 < live h)
    (hin : h ≤ w.frame ∧ w.frame < h + live h) : w.frame = h := by
  obtain ⟨whole, hw, hl⟩ := hi.whole
  obtain ⟨hr, hlt⟩ := hl.range h hh
  have hlen : whole.size h = live h := hl.size h hlt hr
  -- The frame is itself the head of a block.
  have hpos : w.frame < whole.nRamFrames ∧ 0 < whole.size w.frame := by
    have hok := hi.tasks t w ht
    cases w with
    | freeing h' m =>
      obtain ⟨hm, rfl⟩ := hok
      obtain ⟨hr', hlt'⟩ := hl.range h' hm
      exact ⟨hlt', (hl.size h' hlt' hr').symm ▸ hm⟩
    | writing f i e' =>
      have hlt' : f < whole.nRamFrames := hw.nRamFrames ▸ hok.1
      have hone := (hl.owner f hlt' (by rw [hw.used, hok.2.1])
        (by rw [hw.owner]; exact hok.2.2.1)).2
      exact ⟨hlt', hone.symm ▸ Nat.one_pos⟩
  exact hl.wf.tiled.head_unique hpos.1 hlt ⟨le_rfl, by omega⟩ ⟨hin.1, hlen.symm ▸ hin.2⟩

/-- The second part of a free. -/
theorem freeEnd (hi : AllocInv r cm task live) (ht : task t = some (.freeing h n)) :
    (∀ f, h ≤ f → f < h + n → cm.used f = true) ∧
      AllocInv r (cm.clear h n) (update task t none) (update live h 0) := by
  obtain ⟨hn, rfl⟩ := hi.tasks t _ ht
  obtain ⟨whole, hw, hl⟩ := hi.whole
  obtain ⟨hr, hlt⟩ := hl.range h hn
  have hsize : whole.size h = live h := hl.size h hlt hr
  have hother : ∀ t' w, t' ≠ t → task t' = some w → w.frame ≠ h := fun t' w htt ht' hf =>
    htt (hi.inj t' t w _ ht' ht hf)
  have hfr : Freeing task = fun f => f = h ∨ Freeing (update task t none) f := by
    funext f
    rw [eq_iff_iff]
    constructor
    · rintro ⟨t', m, ht'⟩
      by_cases htt : t' = t
      · subst htt
        rw [ht] at ht'
        cases ht'
        exact Or.inl rfl
      · exact Or.inr ⟨t', m, by rw [update_of_ne htt, ht']⟩
    · rintro (rfl | ⟨t', m, ht'⟩)
      · exact ⟨t, _, ht⟩
      · by_cases htt : t' = t
        · rw [htt, update_self] at ht'
          cases ht'
        · exact ⟨t', m, by rwa [update_of_ne htt] at ht'⟩
  rw [hfr] at hw
  refine ⟨fun f h1 h2 => ?_, ⟨_, hsize ▸ hw.release, hl.release hn⟩,
    tasks_update (fun t' w htt ht' => ?_) nofun, hi.inj_update nofun⟩
  · rw [← hw.used]
    exact hl.wf.tiled.used_of_mem hlt h1 (by rwa [hsize])
  · have hne := hother t' w htt ht'
    have hin : ¬(h ≤ w.frame ∧ w.frame < h + live h) := fun hin =>
      hne (hi.frame_head ht' hn hin)
    refine (hi.tasks t' w ht').congr rfl ?_ Coremap.owner_clear (fun hlk => ?_)
      (update_of_ne hne _ _)
    · rw [Coremap.used_clear, if_neg hin]
    · rw [Coremap.locked_clear, hlk]

end AllocInv

namespace Allocators

variable {r : ℕ} {s s' : Allocators} {op : AllocOp}

theorem step_inv (hi : AllocInv r s.kernel.coremap s.task s.live) (h : s.Step op s') :
    AllocInv r s'.kernel.coremap s'.task s'.live := by
  obtain ⟨hal, h⟩ := h
  cases op with
  | get t n e =>
    obtain ⟨ht, hn, he⟩ := hal
    obtain ⟨⟨st, k⟩, hget, h⟩ := bind_eq_ok.mp h
    have hbegun := coremapGetBegin_coremap hget
    cases st with
    | done b =>
      cases h
      rcases hbegun with ⟨hfind, hcm⟩ | ⟨-, hle, hpick, hcm⟩
      · rw [hcm]
        exact hi.take_free (freeRun_of_find hfind) hn he
      · obtain rfl : n = 1 := by omega
        obtain ⟨hsw, hu, hs⟩ := hpick.victim
        rw [hcm]
        exact (hi.relock (.setVictim s.kernel.coremap b) fun _ => id).take_one hsw.1 hu hsw.2.1
          (hi.ne_frame hsw.2.2 hs)
    | writing f i =>
      cases h
      obtain ⟨-, -, hpick, hcm⟩ := hbegun
      obtain ⟨hsw, hu, hs⟩ := hpick.victim
      rw [hcm]
      exact hi.lock ht hsw hu hs
  | resume t =>
    obtain ⟨f, i, e, ht⟩ := hal
    rw [exec, ht] at h
    obtain ⟨k, hend, h⟩ := bind_eq_ok.mp h
    cases h
    rw [coremapGetEnd_coremap hend]
    exact hi.unlock ht
  | freeBegin t first =>
    obtain ⟨ht, hl, hne⟩ := hal
    have hfree : ¬Freeing s.task first := by
      rintro ⟨t', n, ht'⟩
      exact hne t' _ ht' rfl
    obtain ⟨hlt, hs⟩ := hi.size_live hl hfree
    rw [exec, coremapFreeBegin_eq hlt (hs ▸ hl), ok_bind, hs] at h
    cases h
    exact hi.freeBegin ht hl hne
  | freeEnd t =>
    obtain ⟨first, n, ht⟩ := hal
    obtain ⟨hused, hend⟩ := hi.freeEnd ht
    rw [exec, ht] at h
    dsimp only at h
    rw [coremapFreeLoop_eq n first s.kernel.coremap hused, ok_bind] at h
    cases h
    exact hend
  | other k =>
    cases h
    rw [show k.coremap = s.kernel.coremap from hal]
    exact hi

theorem run_inv {k : Kernel} {tr : List AllocOp} (hl : Ledger r k.coremap fun _ => 0)
    (h : Run Step ⟨k, fun _ => none, fun _ => 0⟩ tr s) :
    AllocInv r s.kernel.coremap s.task s.live := by
  refine h.invariant (I := fun s => AllocInv r s.kernel.coremap s.task s.live) ?_
    fun _ _ _ hi hs => step_inv hi hs
  refine ⟨⟨k.coremap, ⟨rfl, rfl, rfl, ?_, fun _ _ => rfl⟩, hl⟩, nofun, nofun⟩
  rintro h ⟨t, n, ht⟩
  cases ht

end Allocators

/-! ## The scan -/

/-- A frame in use that starts an allocated block has a size. -/
def HeadsSized (r : ℕ) (s : Allocators) : Prop :=
  ∀ h < s.kernel.coremap.nRamFrames, s.kernel.coremap.used h = true → (h < r ∨ 0 < s.live h) →
    1 ≤ s.kernel.coremap.size h

/-- The loop of `coremap_find_freeframes` ends. -/
def ScanEnds (cm : Coremap) (npages : ℕ) : Prop :=
  ∃ fuel res, findFreeframesLoop cm npages fuel 0 none = some res

theorem scanEnds_of_wf {cm : Coremap} {npages : ℕ} (h : cm.WF) (hn : 0 < npages) :
    ScanEnds cm npages := by
  cases hloop : findFreeframesLoop cm npages (cm.nRamFrames + 1) 0 none with
  | some res => exact ⟨_, res, hloop⟩
  | none =>
    have hhang : coremapFindFreeframes cm npages = .error .hang := by
      rw [coremapFindFreeframes, hloop]
    rcases coremapFindFreeframes_spec h hn with ⟨b, hb, -⟩ | ⟨hb, -⟩ <;> rw [hhang] at hb <;>
      cases hb

namespace AllocInv

variable {r : ℕ} {s : Allocators}

theorem ledger (hi : AllocInv r s.kernel.coremap s.task s.live)
    (hnone : ∀ t h n, s.task t ≠ some (.freeing h n)) : Ledger r s.kernel.coremap s.live := by
  obtain ⟨whole, hw, hl⟩ := hi.whole
  refine hl.sameBlocks ⟨hw.nRamFrames.symm, hw.used.symm, ?_, hw.owner.symm⟩
  funext h
  exact hw.size h fun ⟨t, n, ht⟩ => hnone t h n ht

/-- Every head has a size exactly if no free is interrupted. -/
theorem headsSized_iff (hi : AllocInv r s.kernel.coremap s.task s.live) :
    HeadsSized r s ↔ ∀ t h n, s.task t ≠ some (.freeing h n) := by
  constructor
  · intro hs t h n ht
    have hpos : 0 < s.live h := by
      obtain ⟨hn, hl⟩ := hi.tasks t _ ht
      omega
    have hlt : h < s.kernel.coremap.nRamFrames := by
      obtain ⟨whole, hw, hl⟩ := hi.whole
      exact hw.nRamFrames ▸ (hl.range h hpos).2
    have := hs h hlt (hi.used_frame ht) (Or.inr hpos)
    rw [hi.size_freeing ⟨t, n, ht⟩] at this
    omega
  · rintro hnone h hlt - (hr | hl)
    · exact ((hi.ledger hnone).reserved h hr).ge
    · rw [(hi.size_live hl fun ⟨t, n, ht⟩ => hnone t h n ht).2]
      exact hl

end AllocInv

/-- Whatever the threads do, in every state reached every head has a size and every scan ends
exactly if no thread is between the two parts of a free. -/
theorem scan_safe_iff {ramsize firstfree : ℕ} {k : Kernel} {s : Allocators} {tr : List AllocOp}
    (hb : coremapBootstrap ramsize firstfree = .ok k.coremap)
    (hfit : reservedFrames k.coremap.nRamFrames firstfree ≤ k.coremap.nRamFrames)
    (hr : Run Allocators.Step ⟨k, fun _ => none, fun _ => 0⟩ tr s) :
    (HeadsSized (reservedFrames k.coremap.nRamFrames firstfree) s ∧
      ∀ n, 0 < n → ScanEnds s.kernel.coremap n) ↔ ∀ t h n, s.task t ≠ some (.freeing h n) := by
  have hi := Allocators.run_inv (Ledger.of_bootstrap hb hfit) hr
  constructor
  · rintro ⟨hs, -⟩
    exact hi.headsSized_iff.mp hs
  · intro hnone
    exact ⟨hi.headsSized_iff.mpr hnone, fun n hn => scanEnds_of_wf (hi.ledger hnone).wf hn⟩

/-! ## Small runs -/

namespace Allocators

/-- The machine with four frames, two of them reserved. -/
def small : Allocators :=
  ⟨(Sys.small 4).kernel, fun _ => none, fun _ => 0⟩

theorem small_bootstrap :
    coremapBootstrap (4 * pageSize) (paddrToKvaddr pageSize) = .ok small.kernel.coremap ∧
      reservedFrames 4 (paddrToKvaddr pageSize) = 2 := by
  refine ⟨coremapBootstrap_eq (by decide) ?_, ?_⟩
  · rw [kvaddrToPaddr_paddrToKvaddr]
    rfl
  · rw [reservedFrames, kvaddrToPaddr_paddrToKvaddr]
    rfl

/-- A thread gets the two free frames. -/
theorem small_get : ∃ k, coremapGetBegin small.kernel 2 none = .ok (.done 2, k) ∧
    k.coremap = small.kernel.coremap.mark 2 2 none := by
  have h : (coremapGetBegin small.kernel 2 none).toOption.map (fun r => decide (r.1 = .done 2)) =
      some true := by
    decide +kernel
  cases hget : coremapGetBegin small.kernel 2 none with
  | error e =>
    rw [hget] at h
    cases h
  | ok r =>
    obtain ⟨st, k⟩ := r
    rw [hget] at h
    obtain rfl : st = .done 2 := of_decide_eq_true (Option.some.inj h)
    rcases coremapGetBegin_coremap hget with ⟨-, hcm⟩ | ⟨-, hle, -⟩
    · exact ⟨k, rfl, hcm⟩
    · omega

/-- The state after a thread got the two free frames and began to free them. -/
def smallHalf (k : Kernel) : Allocators :=
  ⟨{ k with coremap := k.coremap.setSize 2 0 },
    update (fun _ => none) 1 (some (.freeing 2 2)), update (fun _ => 0) 2 2⟩

theorem small_run : ∃ k, k.coremap = small.kernel.coremap.mark 2 2 none ∧
    Run Step small [.freeBegin 1 2, .get 1 2 none] (smallHalf k) := by
  obtain ⟨k, hget, hcm⟩ := small_get
  have hlt : 2 < k.coremap.nRamFrames := by
    rw [hcm]
    decide
  have hsize : k.coremap.size 2 = 2 := by
    rw [hcm]
    rfl
  have h1 : small.Step (.get 1 2 none) ⟨k, fun _ => none, update (fun _ => 0) 2 2⟩ := by
    refine ⟨⟨rfl, by decide, by simp⟩, ?_⟩
    rw [exec, hget]
    rfl
  refine ⟨k, hcm, .snoc (.snoc .start h1) ⟨⟨rfl, by simp, fun t' w ht' => by cases ht'⟩, ?_⟩⟩
  rw [exec, coremapFreeBegin_eq hlt (by omega), hsize]
  rfl

end Allocators

/-- After the free is complete the scan ends again. -/
theorem scan_safe_iff_small : ∃ tr s, Run Allocators.Step .small tr s ∧ tr.length = 3 ∧
    HeadsSized 2 s ∧ ∀ n, 0 < n → ScanEnds s.kernel.coremap n := by
  obtain ⟨k, hcm, hrun⟩ := Allocators.small_run
  obtain ⟨hboot, hres⟩ := Allocators.small_bootstrap
  have hfit : reservedFrames Allocators.small.kernel.coremap.nRamFrames (paddrToKvaddr pageSize) ≤
      Allocators.small.kernel.coremap.nRamFrames := by
    change reservedFrames 4 _ ≤ 4
    rw [hres]
    decide
  have hused : ∀ f, 2 ≤ f → f < 2 + 2 → (k.coremap.setSize 2 0).used f = true := by
    intro f h1 h2
    rw [Coremap.used_setSize, hcm, Coremap.used_mark, if_pos ⟨h1, h2⟩]
  have hend : (Allocators.smallHalf k).exec (.freeEnd 1) =
      .ok ⟨{ k with coremap := (k.coremap.setSize 2 0).clear 2 2 },
        update (Allocators.smallHalf k).task 1 none,
        update (Allocators.smallHalf k).live 2 0⟩ := by
    change (do
      let cm ← coremapFreeLoop 2 2 (k.coremap.setSize 2 0)
      .ok _ : Except Halt Allocators) = _
    rw [coremapFreeLoop_eq 2 2 _ hused]
    rfl
  have hrun' := hrun.snoc (a := AllocOp.freeEnd 1) ⟨⟨2, 2, rfl⟩, hend⟩
  have hsafe := (scan_safe_iff hboot hfit hrun').mpr ?_
  · change HeadsSized (reservedFrames 4 _) _ ∧ _ at hsafe
    rw [hres] at hsafe
    exact ⟨_, _, hrun', rfl, hsafe⟩
  · intro t h n ht
    by_cases h1 : t = 1 <;> simp [Allocators.smallHalf, h1] at ht

/-- A thread that takes the spinlock between the two parts of the free finds frame `2` in use
without a size, and its search never ends. -/
theorem scan_stuck_small : ∃ tr s, Run Allocators.Step .small tr s ∧ s.Allowed (.get 3 1 none) ∧
    ¬HeadsSized 2 s ∧ ∀ fuel, findFreeframesLoop s.kernel.coremap 1 fuel 0 none = none := by
  obtain ⟨k, hcm, hrun⟩ := Allocators.small_run
  have hcm' : (Allocators.smallHalf k).kernel.coremap =
      (Allocators.small.kernel.coremap.mark 2 2 none).setSize 2 0 := by
    rw [Allocators.smallHalf, hcm]
  have hframe : 2 < (Allocators.smallHalf k).kernel.coremap.nRamFrames ∧
      ∀ f < 3, (Allocators.smallHalf k).kernel.coremap.used f = true ∧
        (Allocators.smallHalf k).kernel.coremap.size f = [1, 1, 0].getD f 0 := by
    rw [hcm']
    decide +kernel
  obtain ⟨hn, hframe⟩ := hframe
  obtain ⟨hu0, hs0⟩ := hframe 0 (by decide)
  obtain ⟨hu1, hs1⟩ := hframe 1 (by decide)
  obtain ⟨hu2, hs2⟩ := hframe 2 (by decide)
  have hstuck : ∀ fuel,
      findFreeframesLoop (Allocators.smallHalf k).kernel.coremap 1 fuel 2 none = none :=
    fun fuel => findFreeframesLoop_stuck hn hu2 hs2 fuel none
  refine ⟨_, _, hrun, ⟨rfl, by decide, by simp⟩, fun hs => ?_, fun fuel => ?_⟩
  · have hpos : 0 < (Allocators.smallHalf k).live 2 := Nat.two_pos
    have := hs 2 hn hu2 (Or.inr hpos)
    rw [hs2] at this
    exact absurd this (by decide)
  · -- The search passes the two reserved frames.
    match fuel with
    | 0 => rfl
    | 1 => rw [findFreeframesLoop, if_pos (by omega), if_pos hu0, findFreeframesLoop]
    | fuel + 2 =>
      rw [findFreeframesLoop, if_pos (by omega), if_pos hu0, hs0]
      change findFreeframesLoop _ 1 (fuel + 1) 1 none = none
      rw [findFreeframesLoop, if_pos (by omega), if_pos hu1, hs1]
      exact hstuck fuel

end OS161
