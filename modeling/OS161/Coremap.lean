import OS161.Basic
import OS161.BlockMap
import OS161.RoundRobin

/-!
# `vm/coremap.c` : the frame table

The coremap has one entry for each frame of RAM. `cm_free` is `1` for a frame in use;
`cm_size_alloc` is the length of the block at the block's first frame and `0` at every
other frame; `cm_ptentry` points to the page-table entry of a user frame and is `NULL`
for a kernel frame; `cm_lock` keeps a frame from being chosen as a victim while it is
written to swap.

This file has the parts of `coremap.c` that touch nothing but the coremap : the first-fit
search (`coremapFindFreeframes`), the victim search (`coremapGetVictim`), the marking of a
block (`Coremap.mark`) and the two parts of `coremap_freeppages`, the one before the
spinlock is taken and the one after. The search follows `cm_size_alloc` over the frames in
use, so it needs fuel; on a tiled coremap it ends, and it finds the first run of free
frames that is long enough (`coremapFindFreeframes_spec`).
-/

namespace OS161

open Function

/-! ## The table -/

/-- A `struct pt_entry *` : an entry of the page table of an address space. -/
structure PtPtr where
  asid : ℕ
  index : ℕ
  deriving DecidableEq, Repr

/-- `struct cm_entry`. The flag `cmFree` is true for a frame in use. -/
structure CmEntry where
  cmFree : Bool
  cmSizeAlloc : ℕ
  cmLock : Bool
  cmPtentry : Option PtPtr
  deriving DecidableEq, Repr

/-- The coremap with `nRamFrames` and `victim_index`. -/
structure Coremap where
  nRamFrames : ℕ
  entry : ℕ → CmEntry
  victimIndex : ℕ

namespace Coremap

variable (cm : Coremap) (f : ℕ)

/-- `cm_free`, which is set for a frame in use. -/
def used : Bool :=
  (cm.entry f).cmFree

/-- `cm_size_alloc`. -/
def size : ℕ :=
  (cm.entry f).cmSizeAlloc

/-- `cm_lock`. -/
def locked : Bool :=
  (cm.entry f).cmLock

/-- `cm_ptentry`. -/
def owner : Option PtPtr :=
  (cm.entry f).cmPtentry

/-- A store into `cm_size_alloc`. -/
def setSize (n : ℕ) : Coremap :=
  { cm with entry := update cm.entry f { cm.entry f with cmSizeAlloc := n } }

/-- A store into `cm_free`. -/
def setFree (u : Bool) : Coremap :=
  { cm with entry := update cm.entry f { cm.entry f with cmFree := u } }

/-- A store into `cm_lock`. -/
def setLock (l : Bool) : Coremap :=
  { cm with entry := update cm.entry f { cm.entry f with cmLock := l } }

end Coremap

variable {firstfree npages f : ℕ} {cm : Coremap}

/-- `sizeof(struct cm_entry)`. -/
def sizeofCmEntry : ℕ :=
  8

/-- The frames `coremap_bootstrap` reserves for the exception handlers, the kernel image
and the coremap. -/
def reservedFrames (nRamFrames firstfree : ℕ) : ℕ :=
  kvaddrToPaddr firstfree / pageSize + divroundup (sizeofCmEntry * nRamFrames) pageSize

/-- The coremap after the two loops of `coremap_bootstrap`. -/
def Coremap.initial (nRamFrames reserved : ℕ) : Coremap where
  nRamFrames := nRamFrames
  entry i := if i < reserved then ⟨true, 1, false, none⟩ else ⟨false, 0, false, none⟩
  victimIndex := 0

/-- `coremap_bootstrap`, for the RAM size the mainbus reports and the first free virtual
address `start.S` saved. -/
def coremapBootstrap (ramsize firstfree : ℕ) : Except Halt Coremap := do
  let lastpaddr := if 512 * 1024 * 1024 < ramsize then 512 * 1024 * 1024 else ramsize
  let firstpaddr := kvaddrToPaddr firstfree
  kassert (lastpaddr % pageSize = 0) "lastpaddr % PAGE_SIZE == 0"
  kassert (firstpaddr % pageSize = 0) "firstpaddr % PAGE_SIZE == 0"
  let nRamFrames := lastpaddr / pageSize
  .ok (Coremap.initial nRamFrames (reservedFrames nRamFrames firstfree))

/-! ## Searching -/

/-- The loop of `coremap_find_freeframes` : `end` and `beginning` at its exit, `none`
standing for `-1`, or `none` if it is still running after `fuel` rounds. -/
def findFreeframesLoop (cm : Coremap) (npages : ℕ) : ℕ → ℕ → Option ℕ → Option (ℕ × Option ℕ)
  | 0, _, _ => none
  | fuel + 1, stop, beginning =>
    if stop < cm.nRamFrames then
      if cm.used stop then findFreeframesLoop cm npages fuel (stop + cm.size stop) none
      else
        let first := beginning.getD stop
        if stop + 1 - first = npages then some (stop + 1, some first)
        else findFreeframesLoop cm npages fuel (stop + 1) (some first)
    else some (stop, beginning)

/-- `coremap_find_freeframes`. Every round but one that meets a frame in use with size `0`
moves on, so a search that runs for more than `nRamFrames` rounds never ends. -/
def coremapFindFreeframes (cm : Coremap) (npages : ℕ) : Except Halt (Option ℕ) :=
  match findFreeframesLoop cm npages (cm.nRamFrames + 1) 0 none with
  | none => .error .hang
  | some (_, none) => .ok none
  | some (stop, some beginning) =>
    .ok (if stop - beginning = npages then some beginning else none)

/-- The loop of `coremap_get_victim`, with the `victim_index` it leaves. -/
def getVictimLoop (cm : Coremap) : ℕ → ℕ → Except Halt (Option ℕ × ℕ)
  | 0, victimIndex => .ok (none, victimIndex)
  | n + 1, victimIndex =>
    let victimIndex := (victimIndex + 1) % cm.nRamFrames
    if (cm.owner victimIndex).isSome ∧ cm.locked victimIndex = false then do
      kassert (cm.used victimIndex = true) "coremap[victim_index].cm_free == 1"
      kassert (cm.size victimIndex = 1) "coremap[victim_index].cm_size_alloc == 1"
      .ok (some victimIndex, victimIndex)
    else getVictimLoop cm n victimIndex

/-- `coremap_get_victim`. -/
def coremapGetVictim (cm : Coremap) : Except Halt (Option ℕ × Coremap) := do
  let (victim, victimIndex) ← getVictimLoop cm cm.nRamFrames cm.victimIndex
  .ok (victim, { cm with victimIndex := victimIndex })

/-! ## Taking and freeing -/

/-- The end of `coremap_getppages` : the block of `npages` frames at `beginning` now belongs
to `ptentry`, or to the kernel. -/
def Coremap.mark (cm : Coremap) (beginning npages : ℕ) (ptentry : Option PtPtr) : Coremap :=
  let cm := cm.setSize beginning (npages % 2 ^ 20)
  { cm with entry := fun f =>
      if beginning ≤ f ∧ f < beginning + npages then
        { cm.entry f with cmFree := true, cmPtentry := ptentry }
      else cm.entry f }

/-- `coremap_freeppages` before `spinlock_acquire` : the first frame, the size of the block,
and the coremap with that size cleared. -/
def coremapFreeBegin (cm : Coremap) (addr : ℕ) : Except Halt (ℕ × ℕ × Coremap) := do
  kassert (addr % pageSize = 0) "addr % PAGE_SIZE == 0"
  let first := addr / pageSize
  let allocSize := cm.size first
  let cm := cm.setSize first 0
  kassert (first < cm.nRamFrames) "nRamFrames > first"
  kassert (0 < allocSize) "allocSize > 0"
  .ok (first, allocSize, cm)

/-- `coremap_freeppages` under the spinlock : clear `cm_free` of `n` frames from `f` on. -/
def coremapFreeLoop : ℕ → ℕ → Coremap → Except Halt Coremap
  | 0, _, cm => .ok cm
  | n + 1, f, cm => do
    kassert (cm.used f = true) "coremap[first + i].cm_free == 1"
    coremapFreeLoop n (f + 1) (cm.setFree f false)

/-- `coremap_freeppages`, run without interruption. -/
def coremapFreeppages (cm : Coremap) (addr : ℕ) : Except Halt Coremap := do
  let (first, allocSize, cm) ← coremapFreeBegin cm addr
  coremapFreeLoop allocSize first cm

/-! ## Reading the table after an update -/

namespace Coremap

variable {cm : Coremap} {b n f g : ℕ} {e : Option PtPtr} {l : Bool} {vi : ℕ}

@[simp] theorem nRamFrames_mark : (cm.mark b n e).nRamFrames = cm.nRamFrames := rfl

@[simp] theorem victimIndex_mark : (cm.mark b n e).victimIndex = cm.victimIndex := rfl

@[simp] theorem nRamFrames_setSize : (cm.setSize f n).nRamFrames = cm.nRamFrames := rfl

@[simp] theorem nRamFrames_setLock : (cm.setLock f l).nRamFrames = cm.nRamFrames := rfl

theorem entry_mark : (cm.mark b n e).entry f =
    ⟨if b ≤ f ∧ f < b + n then true else cm.used f, if f = b then n % 2 ^ 20 else cm.size f,
      cm.locked f, if b ≤ f ∧ f < b + n then e else cm.owner f⟩ := by
  simp only [mark, setSize, update_apply, used, size, locked, owner]
  by_cases hb : f = b <;> by_cases hin : b ≤ f ∧ f < b + n <;> simp [hb, hin] <;> simp_all

@[simp] theorem used_mark :
    (cm.mark b n e).used f = if b ≤ f ∧ f < b + n then true else cm.used f := by
  rw [used, entry_mark]

@[simp] theorem size_mark :
    (cm.mark b n e).size f = if f = b then n % 2 ^ 20 else cm.size f := by
  rw [size, entry_mark]

@[simp] theorem locked_mark : (cm.mark b n e).locked f = cm.locked f := by
  rw [locked, entry_mark]

@[simp] theorem owner_mark :
    (cm.mark b n e).owner f = if b ≤ f ∧ f < b + n then e else cm.owner f := by
  rw [owner, entry_mark]

@[simp] theorem used_setSize : (cm.setSize g n).used f = cm.used f := by
  by_cases h : f = g <;> simp [setSize, used, h]

@[simp] theorem size_setSize : (cm.setSize g n).size f = if f = g then n else cm.size f := by
  by_cases h : f = g <;> simp [setSize, size, h]

@[simp] theorem locked_setSize : (cm.setSize g n).locked f = cm.locked f := by
  by_cases h : f = g <;> simp [setSize, locked, h]

@[simp] theorem owner_setSize : (cm.setSize g n).owner f = cm.owner f := by
  by_cases h : f = g <;> simp [setSize, owner, h]

@[simp] theorem used_setLock : (cm.setLock g l).used f = cm.used f := by
  by_cases h : f = g <;> simp [setLock, used, h]

@[simp] theorem size_setLock : (cm.setLock g l).size f = cm.size f := by
  by_cases h : f = g <;> simp [setLock, size, h]

@[simp] theorem locked_setLock :
    (cm.setLock g l).locked f = if f = g then l else cm.locked f := by
  by_cases h : f = g <;> simp [setLock, locked, h]

@[simp] theorem owner_setLock : (cm.setLock g l).owner f = cm.owner f := by
  by_cases h : f = g <;> simp [setLock, owner, h]

@[simp] theorem used_setVictim : used { cm with victimIndex := vi } f = cm.used f := rfl

@[simp] theorem size_setVictim : size { cm with victimIndex := vi } f = cm.size f := rfl

@[simp] theorem owner_setVictim : owner { cm with victimIndex := vi } f = cm.owner f := rfl

/-- The coremap with the block at `f` free, as `coremap_freeppages` leaves it. -/
def release (cm : Coremap) (f : ℕ) : Coremap :=
  { cm with entry := fun g =>
      ⟨if f ≤ g ∧ g < f + cm.size f then false else cm.used g, if g = f then 0 else cm.size g,
        cm.locked g, cm.owner g⟩ }

@[simp] theorem nRamFrames_release : (cm.release f).nRamFrames = cm.nRamFrames := rfl

@[simp] theorem used_release :
    (cm.release f).used g = if f ≤ g ∧ g < f + cm.size f then false else cm.used g := rfl

@[simp] theorem size_release : (cm.release f).size g = if g = f then 0 else cm.size g := rfl

@[simp] theorem owner_release : (cm.release f).owner g = cm.owner g := rfl

/-- The tables have the same marks, sizes and owners. -/
structure SameBlocks (cm cm' : Coremap) : Prop where
  nRamFrames : cm'.nRamFrames = cm.nRamFrames
  used : cm'.used = cm.used
  size : cm'.size = cm.size
  owner : cm'.owner = cm.owner

namespace SameBlocks

variable {cm cm' : Coremap}

theorem refl (cm : Coremap) : cm.SameBlocks cm :=
  ⟨rfl, rfl, rfl, rfl⟩

theorem setVictim (cm : Coremap) (vi : ℕ) : cm.SameBlocks { cm with victimIndex := vi } :=
  ⟨rfl, rfl, rfl, rfl⟩

theorem setLock (h : cm.SameBlocks cm') (f : ℕ) (l : Bool) : cm.SameBlocks (cm'.setLock f l) := by
  refine ⟨h.nRamFrames, ?_, ?_, ?_⟩ <;> funext g
  · rw [used_setLock, h.used]
  · rw [size_setLock, h.size]
  · rw [owner_setLock, h.owner]

end SameBlocks

end Coremap

/-! ## Well-formed coremaps -/

namespace Coremap

/-- The frames in use are tiled by the blocks. There are at most `2 ^ 17` frames, those of
512 megabytes, so that a block size fits its bit field. -/
structure WF (cm : Coremap) : Prop where
  tiled : Tiled cm.nRamFrames cm.used cm.size
  nRamFrames_le : cm.nRamFrames ≤ 2 ^ 17

variable {cm : Coremap} {b n f : ℕ} {e : Option PtPtr}

/-- Taking free frames keeps the coremap well formed. -/
theorem WF.mark_free (h : cm.WF) (hn : 0 < n) (hb : b + n ≤ cm.nRamFrames)
    (hfree : ∀ f, b ≤ f → f < b + n → cm.used f = false) : (cm.mark b n e).WF := by
  have hmod : n % 2 ^ 20 = n := Nat.mod_eq_of_lt (by have := h.nRamFrames_le; omega)
  refine ⟨(h.tiled.take hn hb hfree).congr ?_ ?_, h.nRamFrames_le⟩
  · intro f _
    rw [used_mark]
  · intro f _
    rw [size_mark, hmod, update_apply]

/-- So does handing out a block of one frame again. -/
theorem WF.mark_one (h : cm.WF) (hf : cm.used f = true) (hs : cm.size f = 1) :
    (cm.mark f 1 e).WF := by
  refine ⟨h.tiled.congr ?_ ?_, h.nRamFrames_le⟩
  · intro g _
    rw [used_mark]
    split_ifs with hg
    · obtain rfl : g = f := by omega
      exact hf.symm
    · rfl
  · intro g _
    rw [size_mark]
    split_ifs with hg
    · rw [hg, hs]
      rfl
    · rfl

theorem WF.release (h : cm.WF) (hf : f < cm.nRamFrames) : (cm.release f).WF := by
  refine ⟨(h.tiled.release hf).congr ?_ ?_, h.nRamFrames_le⟩
  · intro g _
    rw [used_release]
  · intro g _
    rw [size_release, update_apply]

theorem WF.setLock {l : Bool} (h : cm.WF) : (cm.setLock f l).WF :=
  ⟨h.tiled.congr (fun _ _ => used_setLock) fun _ _ => size_setLock, h.nRamFrames_le⟩

end Coremap

namespace Coremap

variable {n r f : ℕ}

@[simp] theorem nRamFrames_initial : (initial n r).nRamFrames = n := rfl

@[simp] theorem used_initial : (initial n r).used f = decide (f < r) := by
  by_cases h : f < r <;> simp [initial, used, h]

@[simp] theorem size_initial : (initial n r).size f = if f < r then 1 else 0 := by
  by_cases h : f < r <;> simp [initial, size, h]

@[simp] theorem locked_initial : (initial n r).locked f = false := by
  by_cases h : f < r <;> simp [initial, locked, h]

@[simp] theorem owner_initial : (initial n r).owner f = none := by
  by_cases h : f < r <;> simp [initial, owner, h]

/-- At the start every reserved frame is a block of its own. -/
theorem WF.initial (hn : n ≤ 2 ^ 17) : (initial n r).WF := by
  refine ⟨⟨?_, ?_, ?_, ?_⟩, hn⟩
  · intro f _ hu
    simp only [used_initial, decide_eq_false_iff_not] at hu
    rw [size_initial, if_neg hu]
  · intro f hf
    rw [size_initial]
    split_ifs <;> omega
  · intro h _ f hlt hlt'
    rw [size_initial] at hlt'
    split_ifs at hlt' <;> omega
  · intro f _ hu
    simp only [used_initial, decide_eq_true_eq] at hu
    refine ⟨f, le_rfl, ?_⟩
    rw [size_initial, if_pos hu]
    exact Nat.lt_succ_self f

end Coremap

/-- The coremap takes frames for itself. -/
theorem reservedFrames_pos {n : ℕ} (hn : 0 < n) : 0 < reservedFrames n firstfree := by
  unfold reservedFrames sizeofCmEntry divroundup pageSize
  omega

theorem coremapBootstrap_eq {n : ℕ} (hn : n ≤ 2 ^ 17)
    (hf : kvaddrToPaddr firstfree % pageSize = 0) :
    coremapBootstrap (n * pageSize) firstfree = .ok (.initial n (reservedFrames n firstfree)) := by
  have hle : ¬512 * 1024 * 1024 < n * pageSize := by
    unfold pageSize
    omega
  rw [coremapBootstrap, if_neg hle, kassert_pos (mul_pageSize_mod n), ok_bind, kassert_pos hf,
    ok_bind]
  rw [mul_pageSize_div]

theorem coremapBootstrap_eq_ok {ramsize : ℕ}
    (h : coremapBootstrap ramsize firstfree = .ok cm) :
    cm.nRamFrames ≤ 2 ^ 17 ∧
      cm = .initial cm.nRamFrames (reservedFrames cm.nRamFrames firstfree) := by
  simp only [coremapBootstrap, bind_eq_ok, kassert_eq_ok, Except.ok.injEq] at h
  obtain ⟨-, -, -, -, rfl⟩ := h
  refine ⟨?_, rfl⟩
  simp only [Coremap.nRamFrames_initial, pageSize]
  split_ifs <;> omega

/-! ## The first-fit search -/

namespace Coremap

/-- `npages` free frames in a row, from `b` on. -/
def FreeRun (cm : Coremap) (npages b : ℕ) : Prop :=
  b + npages ≤ cm.nRamFrames ∧ ∀ f, b ≤ f → f < b + npages → cm.used f = false

/-- What holds at the head of the loop of `coremap_find_freeframes`, with `first` the
beginning, or `stop` if there is none : the search stands between two blocks, the frames
from `first` on are free and too few, and no run starts before `first`. -/
structure SearchInv (cm : Coremap) (npages stop first : ℕ) : Prop where
  startsAt : Tiled.StartsAt cm.nRamFrames cm.size stop
  stop_le : stop ≤ cm.nRamFrames
  first_le : first ≤ stop
  short : stop - first < npages
  free : ∀ f, first ≤ f → f < stop → cm.used f = false
  earliest : ∀ c, cm.FreeRun npages c → first ≤ c

variable {cm : Coremap} {npages stop first : ℕ}

theorem SearchInv.skip (h : Tiled cm.nRamFrames cm.used cm.size)
    (hi : cm.SearchInv npages stop first) (hlt : stop < cm.nRamFrames)
    (hu : cm.used stop = true) :
    cm.SearchInv npages (stop + cm.size stop) (stop + cm.size stop) where
  startsAt := h.startsAt_skip hi.startsAt hlt
  stop_le := h.bound stop hlt
  first_le := le_rfl
  short := by
    have := hi.short
    omega
  free f h1 h2 := absurd h2 (not_lt.mpr h1)
  earliest c hc := by
    -- A run that starts before the block at `stop` would reach into it.
    by_contra hlt'
    have hfirst := hi.earliest c hc
    have hshort := hi.short
    rcases Nat.lt_or_ge c stop with hcs | hcs
    · have := hc.2 stop hcs.le (by omega)
      rw [hu] at this
      cases this
    · have hused := h.used_of_mem hlt hcs (by omega)
      rw [hc.2 c le_rfl (by omega)] at hused
      cases hused

theorem SearchInv.step (h : Tiled cm.nRamFrames cm.used cm.size)
    (hi : cm.SearchInv npages stop first) (hlt : stop < cm.nRamFrames)
    (hu : cm.used stop = false) (hne : stop + 1 - first ≠ npages) :
    cm.SearchInv npages (stop + 1) first where
  startsAt := h.startsAt_succ hi.startsAt hlt hu
  stop_le := hlt
  first_le := hi.first_le.trans (Nat.le_succ stop)
  short := by
    have := hi.short
    omega
  free f h1 h2 := by
    rcases Nat.lt_succ_iff_lt_or_eq.mp h2 with h3 | rfl
    · exact hi.free f h1 h3
    · exact hu
  earliest := hi.earliest

/-- The outcome of the loop : the first run, or proof that there is none. -/
def SearchPost (cm : Coremap) (npages : ℕ) (r : ℕ × Option ℕ) : Prop :=
  match r.2 with
  | some b => if r.1 - b = npages then cm.FreeRun npages b ∧ ∀ c, cm.FreeRun npages c → b ≤ c
      else ∀ c, ¬cm.FreeRun npages c
  | none => ∀ c, ¬cm.FreeRun npages c

/-- A search that reached the end of the table found nothing. -/
theorem SearchInv.exhausted (hi : cm.SearchInv npages stop first) (hge : cm.nRamFrames ≤ stop)
    (c : ℕ) : ¬cm.FreeRun npages c := by
  intro hc
  have h1 := hi.earliest c hc
  have h2 := hi.short
  have h3 := hc.1
  omega

/-- The search ends within one round for each remaining frame. -/
theorem findFreeframesLoop_spec (h : Tiled cm.nRamFrames cm.used cm.size) :
    ∀ (fuel stop : ℕ) (beginning : Option ℕ), cm.SearchInv npages stop (beginning.getD stop) →
      cm.nRamFrames - stop < fuel →
      ∃ r, findFreeframesLoop cm npages fuel stop beginning = some r ∧ cm.SearchPost npages r
  | 0, _, _, _, hfuel => absurd hfuel (Nat.not_lt_zero _)
  | fuel + 1, stop, beginning, hi, hfuel => by
    unfold findFreeframesLoop
    dsimp only
    split_ifs with hlt hu hdone
    · have hpos := h.size_pos_of_startsAt hi.startsAt hlt hu
      exact findFreeframesLoop_spec h fuel _ none (hi.skip h hlt hu) (by omega)
    · refine ⟨_, rfl, ?_⟩
      have hfree := hi.free
      have hfirst := hi.first_le
      have hrun : cm.FreeRun npages (beginning.getD stop) := by
        refine ⟨by omega, fun f h1 h2 => ?_⟩
        rcases Nat.lt_or_ge f stop with h3 | h3
        · exact hfree f h1 h3
        · obtain rfl : f = stop := by omega
          simpa using hu
      simp only [SearchPost, if_pos hdone]
      exact ⟨hrun, hi.earliest⟩
    · exact findFreeframesLoop_spec h fuel _ (some _)
        (hi.step h hlt (by simpa using hu) hdone) (by omega)
    · refine ⟨_, rfl, ?_⟩
      have hnone := hi.exhausted (not_lt.mp hlt)
      unfold SearchPost
      cases beginning with
      | none => exact hnone
      | some b =>
        have hshort := hi.short
        simp only [Option.getD_some] at hshort
        simp only [if_neg (ne_of_lt hshort)]
        exact hnone

end Coremap

open Coremap in
/-- On a tiled coremap the search ends. It returns the first run of `npages` free frames, or
`-1` if there is none. -/
theorem coremapFindFreeframes_tiled
    (h : Tiled cm.nRamFrames cm.used cm.size) (hn : 0 < npages) :
    (∃ b, coremapFindFreeframes cm npages = .ok (some b) ∧ cm.FreeRun npages b ∧
      ∀ c, cm.FreeRun npages c → b ≤ c) ∨
    (coremapFindFreeframes cm npages = .ok none ∧ ∀ c, ¬cm.FreeRun npages c) := by
  have hinit : cm.SearchInv npages 0 ((none : Option ℕ).getD 0) :=
    ⟨Tiled.startsAt_zero, Nat.zero_le _, le_rfl, hn, fun f _ hf => absurd hf (Nat.not_lt_zero f),
      fun c _ => Nat.zero_le c⟩
  obtain ⟨⟨stop, beginning⟩, hr, hpost⟩ :=
    findFreeframesLoop_spec h (cm.nRamFrames + 1) 0 none hinit (by omega)
  rw [coremapFindFreeframes, hr]
  cases beginning with
  | none => exact Or.inr ⟨rfl, hpost⟩
  | some b =>
    simp only [SearchPost] at hpost
    dsimp only
    split_ifs at hpost ⊢ with hd
    · exact Or.inl ⟨b, rfl, hpost⟩
    · exact Or.inr ⟨rfl, hpost⟩

theorem coremapFindFreeframes_spec (h : cm.WF) (hn : 0 < npages) :
    (∃ b, coremapFindFreeframes cm npages = .ok (some b) ∧ cm.FreeRun npages b ∧
      ∀ c, cm.FreeRun npages c → b ≤ c) ∨
    (coremapFindFreeframes cm npages = .ok none ∧ ∀ c, ¬cm.FreeRun npages c) :=
  coremapFindFreeframes_tiled h.tiled hn

/-- Whatever the sizes say, frames the search passes over as free are free. -/
theorem findFreeframesLoop_free :
    ∀ (fuel stop : ℕ) (beginning : Option ℕ) {r : ℕ × Option ℕ},
      (∀ b ∈ beginning, cm.FreeRun (stop - b) b ∧ b ≤ stop) →
      findFreeframesLoop cm npages fuel stop beginning = some r →
        ∀ b ∈ r.2, cm.FreeRun (r.1 - b) b
  | 0, _, _, _, _, h => by cases h
  | fuel + 1, stop, beginning, r, hi, h => by
    unfold findFreeframesLoop at h
    dsimp only at h
    -- The run from the beginning, or from here on, with one more frame.
    have hnext : stop < cm.nRamFrames → cm.used stop = false →
        cm.FreeRun (stop + 1 - beginning.getD stop) (beginning.getD stop) ∧
          beginning.getD stop ≤ stop + 1 := by
      intro hlt hu
      have hprev : beginning.getD stop ≤ stop ∧
          ∀ f, beginning.getD stop ≤ f → f < stop → cm.used f = false := by
        cases beginning with
        | none => exact ⟨le_rfl, fun f h1 h2 => absurd h2 (not_lt.mpr h1)⟩
        | some b =>
          obtain ⟨hrun, hle⟩ := hi b rfl
          exact ⟨hle, fun f h1 h2 => hrun.2 f h1 (by omega)⟩
      refine ⟨⟨by omega, fun f h1 h2 => ?_⟩, by omega⟩
      rcases Nat.lt_or_ge f stop with h3 | h3
      · exact hprev.2 f h1 h3
      · obtain rfl : f = stop := by omega
        exact hu
    split_ifs at h with hlt hu hdone
    · exact findFreeframesLoop_free fuel _ none (by simp) h
    · cases h
      rintro b hb
      cases hb
      exact (hnext hlt (by simpa using hu)).1
    · refine findFreeframesLoop_free fuel _ (some _) ?_ h
      rintro b hb
      cases hb
      exact hnext hlt (by simpa using hu)
    · cases h
      exact fun b hb => (hi b hb).1

/-- A search that stands at a frame in use with size `0` stays there. -/
theorem findFreeframesLoop_stuck {stop : ℕ} (hlt : stop < cm.nRamFrames)
    (hu : cm.used stop = true) (hs : cm.size stop = 0) :
    ∀ (fuel : ℕ) (beginning : Option ℕ), findFreeframesLoop cm npages fuel stop beginning = none
  | 0, _ => rfl
  | fuel + 1, beginning => by
    rw [findFreeframesLoop, if_pos hlt, if_pos hu, hs, Nat.add_zero]
    exact findFreeframesLoop_stuck hlt hu hs fuel none

theorem freeRun_of_find {b : ℕ}
    (h : coremapFindFreeframes cm npages = .ok (some b)) : cm.FreeRun npages b := by
  unfold coremapFindFreeframes at h
  split at h
  · cases h
  · cases h
  · rename_i stop b' hloop
    have hrun := findFreeframesLoop_free _ _ none (by simp) hloop b' rfl
    split_ifs at h with hd
    · cases h
      rwa [hd] at hrun
    · cases h

/-! ## The victim search -/

/-- A frame the victim search may return : a user frame that is not locked. -/
def Coremap.Swappable (cm : Coremap) (f : ℕ) : Prop :=
  f < cm.nRamFrames ∧ (cm.owner f).isSome ∧ cm.locked f = false

namespace Coremap

variable {cm : Coremap} {f : ℕ}

instance (cm : Coremap) (f : ℕ) : Decidable (cm.Swappable f) :=
  inferInstanceAs (Decidable (_ ∧ _))

/-- The frames `coremap_get_victim` may return. -/
def eligible (cm : Coremap) (f : ℕ) : Bool :=
  decide (cm.Swappable f)

theorem swappable_of_first {v : ℕ} (h : FirstAfter cm.nRamFrames v cm.eligible f) :
    cm.Swappable f :=
  of_decide_eq_true h.mem

/-- What the search does when it comes to the frame `f`. -/
def takeVictim (cm : Coremap) (f : ℕ) : Except Halt (Option ℕ × ℕ) := do
  kassert (cm.used f = true) "coremap[victim_index].cm_free == 1"
  kassert (cm.size f = 1) "coremap[victim_index].cm_size_alloc == 1"
  .ok (some f, f)

theorem takeVictim_cases (cm : Coremap) (f : ℕ) :
    (cm.used f = true ∧ cm.size f = 1 ∧ cm.takeVictim f = .ok (some f, f)) ∨
      (¬(cm.used f = true ∧ cm.size f = 1) ∧ ∃ cond, cm.takeVictim f = .error (.kassert cond)) := by
  unfold takeVictim kassert
  by_cases hu : cm.used f = true
  · by_cases hs : cm.size f = 1
    · exact Or.inl ⟨hu, hs, by simp [hu, hs]⟩
    · refine Or.inr ⟨by simp [hs], "coremap[victim_index].cm_size_alloc == 1", ?_⟩
      simp [hu, hs]
  · refine Or.inr ⟨by simp [hu], "coremap[victim_index].cm_free == 1", ?_⟩
    simp [hu]

theorem getVictimLoop_next (h0 : 0 < cm.nRamFrames) : ∀ (j n vi : ℕ), j < n →
    (∀ i < j, ¬cm.Swappable ((vi + 1 + i) % cm.nRamFrames)) →
    cm.Swappable ((vi + 1 + j) % cm.nRamFrames) →
      getVictimLoop cm n vi = cm.takeVictim ((vi + 1 + j) % cm.nRamFrames)
  | _, 0, _, hj, _, _ => absurd hj (Nat.not_lt_zero _)
  | 0, n + 1, vi, _, _, hs => by
    exact if_pos hs.2
  | j + 1, n + 1, vi, hj, hbefore, hs => by
    have hshift : ∀ i, ((vi + 1) % cm.nRamFrames + 1 + i) % cm.nRamFrames =
        (vi + 1 + (i + 1)) % cm.nRamFrames := by
      intro i
      rw [Nat.add_assoc, Nat.mod_add_mod, Nat.add_comm 1 i]
    have hfirst : ¬cm.Swappable ((vi + 1) % cm.nRamFrames) := hbefore 0 (Nat.succ_pos j)
    have ih := getVictimLoop_next h0 j n ((vi + 1) % cm.nRamFrames) (Nat.lt_of_succ_lt_succ hj)
      (fun i hi => by rw [hshift]; exact hbefore (i + 1) (Nat.succ_lt_succ hi))
      (by rwa [hshift])
    rw [hshift] at ih
    exact (if_neg fun hc => hfirst ⟨Nat.mod_lt _ h0, hc⟩).trans ih

theorem getVictimLoop_none (h0 : 0 < cm.nRamFrames) (hnone : ∀ f, ¬cm.Swappable f) :
    ∀ (n vi : ℕ), getVictimLoop cm (n + 1) vi = .ok (none, (vi + (n + 1)) % cm.nRamFrames)
  | 0, vi => if_neg fun hc => hnone _ ⟨Nat.mod_lt _ h0, hc⟩
  | n + 1, vi => by
    refine (if_neg fun hc => hnone _ ⟨Nat.mod_lt _ h0, hc⟩).trans ?_
    rw [getVictimLoop_none h0 hnone n, Nat.mod_add_mod, Nat.add_assoc, Nat.add_comm 1]

end Coremap

/-- `coremap_get_victim` comes to the first frame after `victim_index` that it may return, and
makes its two assertions about it; it returns `-1` if there is no such frame. -/
theorem coremapGetVictim_cases (cm : Coremap) :
    (∃ f, FirstAfter cm.nRamFrames (cm.victimIndex % cm.nRamFrames) cm.eligible f ∧
      coremapGetVictim cm =
        (cm.takeVictim f).map fun r => (r.1, { cm with victimIndex := r.2 })) ∨
    (∀ f, ¬cm.Swappable f) ∧ coremapGetVictim cm =
      .ok (none, { cm with victimIndex := cm.victimIndex % cm.nRamFrames }) := by
  have hround : ∀ j, (cm.victimIndex % cm.nRamFrames + 1 + j) % cm.nRamFrames =
      (cm.victimIndex + 1 + j) % cm.nRamFrames := by
    intro j
    rw [Nat.add_assoc, Nat.add_assoc, Nat.mod_add_mod]
  unfold coremapGetVictim
  by_cases hex : ∃ j, cm.Swappable ((cm.victimIndex + 1 + j) % cm.nRamFrames)
  · have h0 : 0 < cm.nRamFrames := Nat.zero_lt_of_lt (Nat.find_spec hex).1
    have hv := Nat.mod_lt cm.victimIndex h0
    -- The frame the fewest steps away.
    have hlap : ∀ g, cm.Swappable g →
        Nat.find hex ≤ lap cm.nRamFrames (cm.victimIndex % cm.nRamFrames) g := by
      intro g hg
      refine Nat.find_min' hex ?_
      rwa [← hround, add_lap_mod hv hg.1]
    have hlt : Nat.find hex < cm.nRamFrames :=
      lt_of_le_of_lt (hlap _ (Nat.find_spec hex)) (lap_lt hv (Nat.mod_lt _ h0))
    refine Or.inl ⟨_, ⟨Nat.mod_lt _ h0, decide_eq_true (Nat.find_spec hex), fun g _ hg => ?_⟩, ?_⟩
    · rw [← hround, lap_add_mod hv hlt]
      exact hlap g (of_decide_eq_true hg)
    · rw [Coremap.getVictimLoop_next h0 _ _ _ hlt (fun i hi => Nat.find_min hex hi)
        (Nat.find_spec hex)]
      cases cm.takeVictim _ <;> rfl
  · have hnone : ∀ f, ¬cm.Swappable f := by
      intro f hf
      refine hex ⟨lap cm.nRamFrames (cm.victimIndex % cm.nRamFrames) f, ?_⟩
      rwa [← hround, add_lap_mod (Nat.mod_lt _ (Nat.zero_lt_of_lt hf.1)) hf.1]
    refine Or.inr ⟨hnone, ?_⟩
    cases hn : cm.nRamFrames with
    | zero => rw [Nat.mod_zero, getVictimLoop, ok_bind]
    | succ n =>
      rw [Coremap.getVictimLoop_none (hn ▸ Nat.succ_pos n) hnone, hn, Nat.add_mod_right, ok_bind]

/-- A frame that the search returns is the first one it may return, and has passed its
assertions. -/
theorem coremapGetVictim_ok {cm' : Coremap} (h : coremapGetVictim cm = .ok (some f, cm')) :
    FirstAfter cm.nRamFrames (cm.victimIndex % cm.nRamFrames) cm.eligible f ∧
      cm.used f = true ∧ cm.size f = 1 ∧ cm' = { cm with victimIndex := f } := by
  rcases coremapGetVictim_cases cm with ⟨g, hg, heq⟩ | ⟨-, heq⟩
  · rw [heq] at h
    rcases cm.takeVictim_cases g with ⟨hu, hs, ht⟩ | ⟨-, cond, ht⟩
    · rw [ht] at h
      cases h
      exact ⟨hg, hu, hs, rfl⟩
    · rw [ht] at h
      cases h
  · rw [heq] at h
    cases h

/-- Where every swappable frame is a block of its own, the search meets no failed assertion. -/
theorem coremapGetVictim_spec (h : ∀ f, cm.Swappable f → cm.used f = true ∧ cm.size f = 1) :
    (∃ f, FirstAfter cm.nRamFrames (cm.victimIndex % cm.nRamFrames) cm.eligible f ∧
      coremapGetVictim cm = .ok (some f, { cm with victimIndex := f })) ∨
    (∀ f, ¬cm.Swappable f) ∧ ∃ cm', coremapGetVictim cm = .ok (none, cm') := by
  rcases coremapGetVictim_cases cm with ⟨f, hf, heq⟩ | ⟨hnone, heq⟩
  · rcases cm.takeVictim_cases f with ⟨-, -, ht⟩ | ⟨hbad, -⟩
    · exact Or.inl ⟨f, hf, by rw [heq, ht]; rfl⟩
    · exact absurd (h f (Coremap.swappable_of_first hf)) hbad
  · exact Or.inr ⟨hnone, _, heq⟩

/-! ## Freeing a block -/

/-- The coremap after the loop of `coremap_freeppages` over `n` frames from `f` on. -/
def Coremap.clear (cm : Coremap) (f n : ℕ) : Coremap :=
  { cm with entry := fun g =>
      if f ≤ g ∧ g < f + n then { cm.entry g with cmFree := false } else cm.entry g }

section Clear

variable {cm : Coremap} {f g n : ℕ}

@[simp] theorem Coremap.nRamFrames_clear : (cm.clear f n).nRamFrames = cm.nRamFrames := rfl

@[simp] theorem Coremap.used_clear :
    (cm.clear f n).used g = if f ≤ g ∧ g < f + n then false else cm.used g := by
  simp only [clear, used]
  split <;> rfl

@[simp] theorem Coremap.size_clear : (cm.clear f n).size g = cm.size g := by
  simp only [clear, size]
  split <;> rfl

@[simp] theorem Coremap.locked_clear : (cm.clear f n).locked g = cm.locked g := by
  simp only [clear, locked]
  split <;> rfl

@[simp] theorem Coremap.owner_clear : (cm.clear f n).owner g = cm.owner g := by
  simp only [clear, owner]
  split <;> rfl

end Clear

theorem coremapFreeLoop_eq : ∀ (n f : ℕ) (cm : Coremap),
    (∀ g, f ≤ g → g < f + n → cm.used g = true) → coremapFreeLoop n f cm = .ok (cm.clear f n)
  | 0, f, cm, _ => by
    have : ∀ g, ¬(f ≤ g ∧ g < f + 0) := by omega
    simp only [coremapFreeLoop, Coremap.clear, if_neg (this _)]
  | n + 1, f, cm, hu => by
    have hrest : ∀ g, f + 1 ≤ g → g < f + 1 + n → (cm.setFree f false).used g = true := by
      intro g h1 h2
      have hne : g ≠ f := by omega
      simpa [Coremap.setFree, Coremap.used, hne] using hu g (by omega) (by omega)
    rw [coremapFreeLoop, kassert_pos (hu f le_rfl (by omega)), ok_bind,
      coremapFreeLoop_eq n (f + 1) _ hrest, Coremap.clear, Coremap.clear]
    congr 2
    funext g
    rcases Nat.lt_trichotomy g f with hlt | rfl | hgt
    · rw [if_neg (by omega), if_neg (by omega)]
      simp [Coremap.setFree, hlt.ne]
    · simp [Coremap.setFree]
    · by_cases hin : g < f + 1 + n
      · rw [if_pos (by omega), if_pos (by omega)]
        simp [Coremap.setFree, hgt.ne']
      · rw [if_neg (by omega), if_neg (by omega)]
        simp [Coremap.setFree, hgt.ne']

/-- The first part of a free, at the head of a block. -/
theorem coremapFreeBegin_eq (hf : f < cm.nRamFrames) (hs : 0 < cm.size f) :
    coremapFreeBegin cm (f * pageSize) = .ok (f, cm.size f, cm.setSize f 0) := by
  rw [coremapFreeBegin, kassert_pos (mul_pageSize_mod f), ok_bind]
  dsimp only
  rw [mul_pageSize_div, Coremap.nRamFrames_setSize, kassert_pos hf, ok_bind, kassert_pos hs,
    ok_bind]

/-- Freeing a block at its head releases it. -/
theorem coremapFreeppages_eq (h : cm.WF) (hf : f < cm.nRamFrames)
    (hs : 0 < cm.size f) : coremapFreeppages cm (f * pageSize) = .ok (cm.release f) := by
  have hused : ∀ g, f ≤ g → g < f + cm.size f → (cm.setSize f 0).used g = true := by
    intro g h1 h2
    rw [Coremap.used_setSize]
    exact h.tiled.used_of_mem hf h1 h2
  rw [coremapFreeppages, coremapFreeBegin_eq hf hs, ok_bind]
  dsimp only
  rw [coremapFreeLoop_eq _ _ _ hused, Coremap.clear, Coremap.release]
  congr 2
  funext g
  have hentry : (cm.setSize f 0).entry g =
      ⟨cm.used g, if g = f then 0 else cm.size g, cm.locked g, cm.owner g⟩ := by
    by_cases hg : g = f
    · subst hg
      simp [Coremap.setSize, Coremap.used, Coremap.locked, Coremap.owner]
    · simp [Coremap.setSize, Coremap.used, Coremap.locked, Coremap.owner, Coremap.size, hg]
  rw [hentry]
  by_cases hin : f ≤ g ∧ g < f + cm.size f
  · simp only [if_pos hin]
  · simp only [if_neg hin]

end OS161
