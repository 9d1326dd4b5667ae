import OS161.Exact
import OS161.KmallocSafe

/-!
# `kmalloc` over the coremap

`Kheap.kmalloc` is given the answers of `alloc_kpages`. Here the heap stands beside the kernel
it is part of (`KernelHeap`), and `alloc_kpages` and `free_kpages` are the kernel's own, with the
search for free frames and the eviction of a user page behind them. Whatever such a call does is
what `Kheap.kmalloc` does with the answers it got (`kmalloc_sim`), and these are pages that are
in no run of the heap, because the coremap has every run of the heap as a block without owner
(`Coremap.HoldsRun`, `Traffic.linked`).

`kmalloc` rounds the size up to pages in 32 bits. `kmalloc_safe_iff` says that a call that
returns is safe exactly if this does not overflow. From `2 ^ 32 - PAGE_SIZE + 1` on, `0` pages are
asked for. No free run has `0` frames, so a page is evicted and its frame is entered with the
size `0`, at which every later search stays (`kmalloc_wraps`).
-/

namespace OS161

/-! ## The calls -/

/-- The heap and the rest of the kernel. -/
structure KernelHeap where
  heap : Kheap
  kernel : Kernel

namespace KernelHeap

/-- `alloc_kpages`. -/
def allocKpages (w : KernelHeap) (npages : ℕ) : Except Halt (ℕ × KernelHeap) := do
  let (va, k) ← OS161.allocKpages w.kernel npages
  .ok (va, ⟨w.heap.allocKpages va npages, k⟩)

/-- `free_kpages`. -/
def freeKpages (w : KernelHeap) (va : ℕ) : Except Halt KernelHeap := do
  let k ← OS161.freeKpages w.kernel va
  .ok ⟨w.heap.freeKpages va, k⟩

/-- `allocpagerefpage`. -/
def allocpagerefpage (w : KernelHeap) (r : ℕ) : Except Halt KernelHeap := do
  kassert ((w.heap.kheaproots r).page = 0) "root->page == NULL"
  let (va, w) ← w.allocKpages 1
  if va = 0 then .ok w
  else do
    kassert (va % pageSize = 0) "va % PAGE_SIZE == 0"
    .ok { w with heap := w.heap.setRoot r { w.heap.kheaproots r with page := va } }

/-- The loop of `allocpageref` over the roots. -/
def allocpagerefLoop (w : KernelHeap) : List ℕ → Except Halt (ℕ × KernelHeap)
  | [] => .ok (0, w)
  | r :: rs =>
    let root := w.heap.kheaproots r
    if npagerefsPerPage ≤ root.numinuse then w.allocpagerefLoop rs
    else do
      match ← root.findClear with
      | none => w.allocpagerefLoop rs
      | some (i, j) => do
        let w := { w with heap := w.heap.setRoot r { root with
          pagerefsInuse := Function.update root.pagerefsInuse i
            (root.pagerefsInuse i ||| 1#32 <<< j)
          numinuse := root.numinuse + 1 } }
        let w ← if root.page = 0 then w.allocpagerefpage r else .ok w
        let page := (w.heap.kheaproots r).page
        if page = 0 then .ok (0, w) else .ok (page + (i * 32 + j) * pagerefSize, w)

/-- `allocpageref`. -/
def allocpageref (w : KernelHeap) : Except Halt (ℕ × KernelHeap) :=
  w.allocpagerefLoop (List.range numPagerefpages)

/-- `subpage_kmalloc`. -/
def subpageKmalloc (w : KernelHeap) (sz : ℕ) : Except Halt (ℕ × KernelHeap) := do
  let blktype ← blocktype sz
  match ← findAlong .hang w.heap.nextSamesize (w.heap.hasFree blktype) (totalPagerefs + 1)
      (w.heap.sizebases blktype) with
  | some pr => do
    let (ptr, s) ← w.heap.doalloc pr
    .ok (ptr, { w with heap := s })
  | none => do
    let (prpage, w) ← w.allocKpages 1
    if prpage = 0 then .ok (0, w)
    else do
      kassert (prpage % pageSize = 0) "prpage % PAGE_SIZE == 0"
      let (pr, w) ← w.allocpageref
      if pr = 0 then do
        let w ← w.freeKpages prpage
        .ok (0, w)
      else do
        let s ← w.heap.newPage pr prpage blktype
        let (ptr, s) ← s.doalloc pr
        .ok (ptr, { w with heap := s })

/-- `kmalloc`. -/
def kmalloc (w : KernelHeap) (sz : ℕ) : Except Halt (ℕ × KernelHeap) :=
  if largestSubpageSize ≤ sz then do
    let (address, w) ← w.allocKpages (Kheap.npages sz)
    if address = 0 then .ok (0, w)
    else do
      kassert (address % pageSize = 0) "address % PAGE_SIZE == 0"
      .ok (address, w)
  else w.subpageKmalloc sz

/-- The block that a call returned is live from then on. -/
def entered (w : KernelHeap) (ptr sz : ℕ) : KernelHeap :=
  { w with heap := if ptr = 0 then w.heap else { w.heap with live := (ptr, sz) :: w.heap.live } }

end KernelHeap

/-! ## What the functions leave alone -/

namespace Kheap

variable {s s' : Kheap}

/-- The runs of pages and the live blocks are the same. -/
structure SameRuns (s s' : Kheap) : Prop where
  runs : s'.runs = s.runs
  live : s'.live = s.live

namespace SameRuns

theorem refl (s : Kheap) : s.SameRuns s :=
  ⟨rfl, rfl⟩

theorem trans {s'' : Kheap} (h : s.SameRuns s') (h' : s'.SameRuns s'') : s.SameRuns s'' :=
  ⟨h'.runs.trans h.runs, h'.live.trans h.live⟩

end SameRuns

theorem doalloc_sameRuns {pr p : ℕ} (h : s.doalloc pr = .ok (p, s')) : s.SameRuns s' := by
  simp only [doalloc, bind_eq_ok] at h
  obtain ⟨-, -, h⟩ := h
  split_ifs at h
  · simp only [bind_eq_ok] at h
    obtain ⟨-, -, -, -, h⟩ := h
    cases h
    exact ⟨rfl, rfl⟩
  · simp only [bind_eq_ok] at h
    obtain ⟨-, -, h⟩ := h
    cases h
    exact ⟨rfl, rfl⟩

theorem threadLoop_sameRuns {pr fla size : ℕ} : ∀ (n i fl : ℕ) {s s' : Kheap} {fl' : ℕ},
    threadLoop pr fla size n i fl s = .ok (fl', s') → s.SameRuns s'
  | 0, i, fl, s, s', fl', h => by cases h
  | n + 1, i, fl, s, s', fl', h => by
    rw [threadLoop] at h
    split_ifs at h
    · simp only [bind_eq_ok] at h
      obtain ⟨-, -, h⟩ := h
      exact (⟨rfl, rfl⟩ : s.SameRuns (s.store _ _)).trans (threadLoop_sameRuns n _ _ h)
    · cases h
      exact .refl s

theorem newPage_sameRuns {pr prpage t : ℕ} (h : s.newPage pr prpage t = .ok s') :
    s.SameRuns s' := by
  simp only [newPage, bind_eq_ok, Prod.exists] at h
  obtain ⟨fl, s₁, hloop, -, -, h⟩ := h
  have h₁ := threadLoop_sameRuns _ _ _ hloop
  cases h
  exact ⟨h₁.runs, h₁.live⟩

end Kheap

/-! ## The answers of `alloc_kpages` -/

/-- A page was asked for and is at `va`, or none was asked for. -/
def AskedPage (k : Kernel) (va : ℕ) (k' : Kernel) : Prop :=
  va = 0 ∧ k' = k ∨ allocKpages k 1 = .ok (va, k')

theorem allocKpages_ne_zero {k k' : Kernel} {n va : ℕ} (h : allocKpages k n = .ok (va, k')) :
    va ≠ 0 := by
  simp only [allocKpages, bind_eq_ok, Prod.exists] at h
  obtain ⟨pa, k₁, -, h⟩ := h
  cases h
  simp only [paddrToKvaddr, mipsKseg0]
  omega

namespace KernelHeap

variable {w w' : KernelHeap} {sz p : ℕ}

theorem allocKpages_eq_ok {n va : ℕ} (h : w.allocKpages n = .ok (va, w')) :
    OS161.allocKpages w.kernel n = .ok (va, w'.kernel) ∧ w'.heap = w.heap.allocKpages va n := by
  simp only [allocKpages, bind_eq_ok, Prod.exists] at h
  obtain ⟨va', k', hk, h⟩ := h
  cases h
  exact ⟨hk, rfl⟩

theorem runs_allocKpages {s : Kheap} {va n : ℕ} :
    (s.allocKpages va n).runs = if va = 0 then s.runs else (va, n) :: s.runs := by
  unfold Kheap.allocKpages
  split_ifs <;> rfl

/-- What a call of `allocpageref` does to the runs, when `va` is the page it asked for. -/
structure PagerefCall (w w' : KernelHeap) (va : ℕ) : Prop where
  asked : AskedPage w.kernel va w'.kernel
  runs : w'.heap.runs = if va = 0 then w.heap.runs else (va, 1) :: w.heap.runs
  live : w'.heap.live = w.heap.live

theorem allocpagerefpage_sim {r : ℕ} (h : w.allocpagerefpage r = .ok w') :
    ∃ va, w.heap.allocpagerefpage r va = .ok w'.heap ∧ w.PagerefCall w' va := by
  obtain ⟨u, hroot, h⟩ := bind_eq_ok.mp h
  obtain ⟨⟨va, w₁⟩, hw, h⟩ := bind_eq_ok.mp h
  obtain ⟨hk, hs⟩ := allocKpages_eq_ok hw
  have hva := allocKpages_ne_zero hk
  dsimp only at h
  rw [if_neg hva] at h
  obtain ⟨u', hal, h⟩ := bind_eq_ok.mp h
  cases h
  refine ⟨va, ?_, Or.inr hk, ?_, ?_⟩
  · rw [Kheap.allocpagerefpage, hroot, ok_bind, if_neg hva, hal, ok_bind, hs,
      Kheap.allocKpages_of_ne hva]
  · change w₁.heap.runs = _
    rw [hs, runs_allocKpages]
  · change w₁.heap.live = _
    rw [hs, Kheap.allocKpages_of_ne hva]

theorem allocpagerefLoop_sim : ∀ (l : List ℕ) {w w' : KernelHeap} {p : ℕ},
    w.allocpagerefLoop l = .ok (p, w') →
      ∃ va, w.heap.allocpagerefLoop va l = .ok (p, w'.heap) ∧ w.PagerefCall w' va
  | [], w, w', p, h => by
    cases h
    exact ⟨0, rfl, Or.inl ⟨rfl, rfl⟩, rfl, rfl⟩
  | r :: rs, w, w', p, h => by
    unfold allocpagerefLoop at h
    by_cases hfull : npagerefsPerPage ≤ (w.heap.kheaproots r).numinuse
    · simp only [if_pos hfull] at h
      obtain ⟨va, hs, hcall⟩ := allocpagerefLoop_sim rs h
      exact ⟨va, by simp only [Kheap.allocpagerefLoop, if_pos hfull, hs], hcall⟩
    simp only [if_neg hfull] at h
    obtain ⟨o, hfind, h⟩ := bind_eq_ok.mp h
    simp only [Kheap.allocpagerefLoop, if_neg hfull, hfind, ok_bind]
    cases o with
    | none => exact allocpagerefLoop_sim rs h
    | some ij =>
      -- the page of the root is the one that was there, or the one just asked for
      have hret : ∀ w₁ : KernelHeap, (if (w₁.heap.kheaproots r).page = 0 then .ok (0, w₁)
          else .ok ((w₁.heap.kheaproots r).page + (ij.1 * 32 + ij.2) * pagerefSize, w₁) :
            Except Halt (ℕ × KernelHeap)) = .ok (p, w') →
          (if (w₁.heap.kheaproots r).page = 0 then .ok (0, w₁.heap)
            else .ok ((w₁.heap.kheaproots r).page + (ij.1 * 32 + ij.2) * pagerefSize, w₁.heap) :
              Except Halt (ℕ × Kheap)) = .ok (p, w'.heap) ∧ w' = w₁ := by
        intro w₁ hw₁
        split_ifs at hw₁ ⊢ with h1
        all_goals
          cases hw₁
          exact ⟨rfl, rfl⟩
      dsimp only at h ⊢
      by_cases h0 : (w.heap.kheaproots r).page = 0
      · rw [if_pos h0] at h
        obtain ⟨w₁, hpage, h⟩ := bind_eq_ok.mp h
        obtain ⟨va, hs, hcall⟩ := allocpagerefpage_sim hpage
        obtain ⟨he, rfl⟩ := hret w₁ h
        refine ⟨va, ?_, hcall.asked, hcall.runs, hcall.live⟩
        rw [if_pos h0, hs, ok_bind]
        exact he
      · rw [if_neg h0] at h
        obtain ⟨he, rfl⟩ := hret _ h
        refine ⟨0, ?_, Or.inl ⟨rfl, rfl⟩, rfl, rfl⟩
        rw [if_neg h0]
        exact he

/-- What a call of `kmalloc` does with pages : none are asked for, or `n` and then perhaps one
for pagerefs, or the first is given back. -/
inductive Traffic (w w' : KernelHeap) (n : ℕ) : ℕ → ℕ → Prop
  | none : w'.kernel = w.kernel → w'.heap.runs = w.heap.runs → Traffic w w' n 0 0
  | pages {va va' : ℕ} {k : Kernel} : OS161.allocKpages w.kernel n = .ok (va, k) →
      AskedPage k va' w'.kernel → (va' ≠ 0 → n = 1) →
      w'.heap.runs = ((w.heap.allocKpages va n).allocKpages va' 1).runs → Traffic w w' n va va'
  | returned {va va' : ℕ} {k k' : Kernel} : OS161.allocKpages w.kernel n = .ok (va, k) →
      AskedPage k va' k' → OS161.freeKpages k' va = .ok w'.kernel → n = 1 →
      w'.heap.runs = (((w.heap.allocKpages va n).allocKpages va' 1).freeKpages va).runs →
      Traffic w w' n va va'

theorem subpageKmalloc_sim (h : w.subpageKmalloc sz = .ok (p, w')) :
    ∃ va va', w.heap.subpageKmalloc sz va va' = .ok (p, w'.heap) ∧ w.Traffic w' 1 va va' ∧
      w'.heap.live = w.heap.live := by
  obtain ⟨t, ht, h⟩ := bind_eq_ok.mp h
  obtain ⟨o, hfind, h⟩ := bind_eq_ok.mp h
  cases o with
  | some pr =>
    simp only [bind_eq_ok, Prod.exists] at h
    obtain ⟨ptr, s, hs, h⟩ := h
    cases h
    have hsame := Kheap.doalloc_sameRuns hs
    refine ⟨0, 0, ?_, .none rfl hsame.runs, hsame.live⟩
    rw [Kheap.subpageKmalloc, ht, ok_bind, hfind, ok_bind]
    exact hs
  | none =>
    simp only [bind_eq_ok, Prod.exists] at h
    obtain ⟨va, w₁, hw₁, h⟩ := h
    obtain ⟨hk, hs₁⟩ := allocKpages_eq_ok hw₁
    have hva := allocKpages_ne_zero hk
    simp only [if_neg hva, bind_eq_ok, Prod.exists] at h
    obtain ⟨_, hal, pr, w₂, hw₂, h⟩ := h
    obtain ⟨va', hs₂, hcall⟩ := allocpagerefLoop_sim _ hw₂
    have hlive : w₂.heap.live = w.heap.live := by
      rw [hcall.live, hs₁, Kheap.allocKpages_of_ne hva]
    have hpath : w.heap.subpageKmalloc sz va va' = if pr = 0 then .ok (0, w₂.heap.freeKpages va)
        else w₂.heap.newPage pr va t >>= fun s => s.doalloc pr := by
      rw [hs₁] at hs₂
      rw [Kheap.subpageKmalloc, ht, ok_bind, hfind, ok_bind]
      rw [if_neg hva, hal, ok_bind, Kheap.allocpageref, hs₂, ok_bind]
    have hruns : w₂.heap.runs = ((w.heap.allocKpages va 1).allocKpages va' 1).runs := by
      rw [hcall.runs, hs₁]
      exact runs_allocKpages.symm
    refine ⟨va, va', ?_⟩
    rw [hpath]
    split_ifs at h ⊢ with hpr
    · obtain ⟨w₃, hw₃, h⟩ := bind_eq_ok.mp h
      cases h
      obtain ⟨k, hfree, hw⟩ := bind_eq_ok.mp hw₃
      cases hw
      refine ⟨rfl, .returned hk hcall.asked hfree rfl ?_, hlive⟩
      exact congrArg (List.filter _) hruns
    · simp only [bind_eq_ok, Prod.exists] at h
      obtain ⟨s₃, hs₃, ptr, s₄, hs₄, h⟩ := h
      cases h
      have hsame := (Kheap.newPage_sameRuns hs₃).trans (Kheap.doalloc_sameRuns hs₄)
      rw [hs₃, ok_bind]
      exact ⟨hs₄, .pages hk hcall.asked (fun _ => rfl) (hsame.runs.trans hruns),
        hsame.live.trans hlive⟩

/-- A call of `kmalloc` does to the heap what it does with the answers it got. -/
theorem kmalloc_sim (h : w.kmalloc sz = .ok (p, w')) :
    ∃ va va', w.heap.kmalloc sz va va' = .ok (p, w'.heap) ∧ w.Traffic w' (pagesFor sz) va va' ∧
      w'.heap.live = w.heap.live := by
  unfold kmalloc at h
  unfold Kheap.kmalloc pagesFor
  split_ifs at h ⊢ with hlarge
  · simp only [bind_eq_ok, Prod.exists] at h
    obtain ⟨va, w₁, hw₁, h⟩ := h
    obtain ⟨hk, hs₁⟩ := allocKpages_eq_ok hw₁
    have hva := allocKpages_ne_zero hk
    rw [if_neg hva, bind_eq_ok] at h
    obtain ⟨_, hal, h⟩ := h
    cases h
    refine ⟨p, 0, ?_, .pages hk (Or.inl ⟨rfl, rfl⟩) (fun h0 => absurd rfl h0) ?_, ?_⟩
    · rw [if_neg hva, hal, ok_bind, hs₁]
    · rw [hs₁]
      rfl
    · rw [hs₁, Kheap.allocKpages_of_ne hva]
  · exact subpageKmalloc_sim h

end KernelHeap

/-! ## Runs of pages in the coremap -/

/-- The run is a block of the coremap that belongs to the kernel. -/
structure Coremap.RunAt (cm : Coremap) (r : ℕ × ℕ) (f : ℕ) : Prop where
  addr : r.1 = paddrToKvaddr (f * pageSize)
  ne_zero : f ≠ 0
  pos : 0 < r.2
  bound : f + r.2 ≤ cm.nRamFrames
  size : cm.size f = r.2
  used : ∀ g, f ≤ g → g < f + r.2 → cm.used g = true
  owner : ∀ g, f ≤ g → g < f + r.2 → cm.owner g = none

/-- The coremap has the run as a block. -/
def Coremap.HoldsRun (cm : Coremap) (r : ℕ × ℕ) : Prop :=
  ∃ f, cm.RunAt r f

namespace Coremap.RunAt

variable {cm : Coremap} {r r' : ℕ × ℕ} {f f' : ℕ}

theorem kernelBlock (h : cm.RunAt r f) : cm.KernelBlock f := by
  have hpos := h.pos
  have hbound := h.bound
  refine ⟨by omega, h.ne_zero, h.used f le_rfl (by omega), ?_, h.owner f le_rfl (by omega)⟩
  rw [h.size]
  exact hpos

/-- Runs in frames that are apart are apart. -/
theorem apart_of_frames {n b : ℕ} (h : cm.RunAt r f) (hn : 0 < n)
    (hout : ∀ g, f ≤ g → g < f + r.2 → ¬(b ≤ g ∧ g < b + n)) :
    Apart (paddrToKvaddr (b * pageSize)) (n * pageSize) r.1 (r.2 * pageSize) := by
  have hsep : b + n ≤ f ∨ f + r.2 ≤ b := by
    by_contra hcon
    have hpos := h.pos
    refine hout (max f b) (le_max_left _ _) ?_ ⟨le_max_right _ _, ?_⟩
    all_goals omega
  rw [h.addr]
  unfold Apart paddrToKvaddr pageSize
  omega

/-- The block of another run is freed. -/
theorem release (hw : cm.WF) (h : cm.RunAt r f) (hne : f ≠ f') :
    (cm.release f').RunAt r f := by
  have hout : ∀ g, f ≤ g → g < f + r.2 → ¬(f' ≤ g ∧ g < f' + cm.size f') := by
    rintro g h1 h2 ⟨h3, h4⟩
    have hsize := h.size
    have hbound := h.bound
    rcases lt_or_gt_of_ne hne with hlt | hlt
    · have := (hw.tiled.inner f (by omega) f' hlt (by omega)).2
      omega
    · have := (hw.tiled.inner f' (by omega) f hlt (by omega)).2
      omega
  refine ⟨h.addr, h.ne_zero, h.pos, h.bound, ?_, fun g h1 h2 => ?_, h.owner⟩
  · rw [Coremap.size_release, if_neg hne, h.size]
  · rw [Coremap.used_release, if_neg (hout g h1 h2), h.used g h1 h2]

end Coremap.RunAt

section Granted

variable {k k' : Kernel} {n b va : ℕ} {r : ℕ × ℕ} {f : ℕ}

/-- The frames that are granted are in no run. -/
theorem Granted.runAt_out (hg : Granted k.Live k n none b k') (hk : k.Inv)
    (h : k.coremap.RunAt r f) : ∀ g, f ≤ g → g < f + r.2 → ¬(b ≤ g ∧ g < b + n) := by
  rintro g h1 h2 ⟨h3, h4⟩
  rcases hg.victim with hrun | ⟨rfl, e, hl, hf⟩
  · have := h.used g h1 h2
    rw [hrun.2 g h3 h4] at this
    cases this
  · obtain rfl : g = b := by omega
    have := (hk.owned.frames.resident e g hl hf).2.2.2
    rw [h.owner g h1 h2] at this
    cases this

theorem Granted.runAt (hg : Granted k.Live k n none b k') (hn : 0 < n) (hk : k.Inv)
    (h : k.coremap.RunAt r f) : k'.coremap.RunAt r f := by
  have hout := hg.runAt_out hk h
  have hpos := h.pos
  refine ⟨h.addr, h.ne_zero, hpos, by rw [hg.nRamFrames]; exact h.bound, ?_, ?_, ?_⟩
  · have hne : f ≠ b := by
      rintro rfl
      exact hout f le_rfl (by omega) ⟨le_rfl, by omega⟩
    rw [hg.size, if_neg hne, h.size]
  · intro g h1 h2
    rw [hg.used, if_neg (hout g h1 h2), h.used g h1 h2]
  · intro g h1 h2
    rw [hg.owner, if_neg (hout g h1 h2), h.owner g h1 h2]

/-- The frames that are granted are a run. -/
theorem Granted.runAt_self (hg : Granted k.Live k n none b k') (hn : 0 < n) (h0 : b ≠ 0)
    (hk : k.Inv) : k'.coremap.RunAt (paddrToKvaddr (b * pageSize), n) b := by
  have hbound : b + n ≤ k.coremap.nRamFrames := by
    have hlt := hg.lt hk.owned hn
    rcases hg.victim with hrun | ⟨rfl, -⟩
    · exact hrun.1
    · exact hlt
  have hle := hk.owned.frames.wf.nRamFrames_le
  refine ⟨rfl, h0, hn, by rw [hg.nRamFrames]; exact hbound, ?_, ?_, ?_⟩
  · rw [hg.size, if_pos rfl]
    exact Nat.mod_eq_of_lt (by omega)
  · intro g h1 h2
    rw [hg.used, if_pos ⟨h1, h2⟩]
  · intro g h1 h2
    rw [hg.owner, if_pos ⟨h1, h2⟩]

/-- `alloc_kpages` gives frames of the coremap to the kernel, and leaves its other blocks. -/
theorem allocKpages_granted (hk : k.Inv) (hn : 0 < n) (h : allocKpages k n = .ok (va, k')) :
    ∃ b, b ≠ 0 ∧ va = paddrToKvaddr (b * pageSize) ∧ Granted k.Live k n none b k' ∧
      k.Keeps k' := by
  simp only [allocKpages, bind_eq_ok, Prod.exists] at h
  obtain ⟨pa, k₁, hget, h⟩ := h
  cases h
  obtain ⟨b, h0, hpa, hg⟩ := (getppages_spec hk.owned hn none).of_ok hget
  obtain rfl : pa = b * pageSize := hpa
  have hexec : Sys.exec ⟨k, []⟩ (.allocKpages n) =
      .ok (.allocated n (paddrToKvaddr (b * pageSize)), ⟨k', [paddrToKvaddr (b * pageSize)]⟩) := by
    rw [Sys.exec, allocKpages, hget]
    rfl
  have hinv : Sys.Inv ⟨k, []⟩ := ⟨hk, fun a ha => absurd ha List.not_mem_nil, List.nodup_nil⟩
  have hstep := Sys.step_inv hinv ⟨.allocKpages n, hn, hexec⟩
  exact ⟨b, h0, rfl, hg, hstep.kernel, hg.procs, fun c hc => (hg.kernelBlock hn hk.owned hc).2⟩

/-- `free_kpages` of a run releases its frames. -/
theorem freeKpages_runAt (hk : k.Inv) (h : k.coremap.RunAt r f)
    (hfree : freeKpages k r.1 = .ok k') :
    k' = { k with coremap := k.coremap.release f } ∧ k'.Inv := by
  have hb := h.kernelBlock
  rw [h.addr, freeKpages, freeppages, kvaddrToPaddr_paddrToKvaddr,
    coremapFreeppages_eq hk.owned.frames.wf hb.lt hb.size, ok_bind] at hfree
  cases hfree
  exact ⟨rfl, ⟨hk.owned.frames.release hb.lt hb.ne_zero hb.owner, hk.owned.slots⟩, hk.procs,
    hk.shaped⟩

end Granted

/-! ## The heap in the kernel -/

namespace KernelHeap

variable {w w' : KernelHeap} {n va va' sz p : ℕ} {k k' : Kernel} {runs : List (ℕ × ℕ)}

/-- The kernel satisfies its invariant, and the runs are among its blocks. -/
structure Linked (k : Kernel) (runs : List (ℕ × ℕ)) : Prop where
  kernel : k.Inv
  held : ∀ r ∈ runs, k.coremap.HoldsRun r

/-- The heap and the coremap are well formed, and the coremap has the pages of the heap as
blocks of the kernel. -/
structure Inv (w : KernelHeap) : Prop where
  heap : w.heap.Inv
  linked : Linked w.kernel w.heap.runs

/-- A run that is granted is in no other. -/
theorem Linked.alloc (h : Linked k runs) (hn : 0 < n)
    (ha : OS161.allocKpages k n = .ok (va, k')) :
    FreshRun runs va n ∧ Linked k' ((va, n) :: runs) ∧
      ∀ c, k.coremap.KernelBlock c → k'.coremap.KernelBlock c ∧
        va ≠ paddrToKvaddr (c * pageSize) := by
  obtain ⟨b, h0, rfl, hg, hkeep⟩ := allocKpages_granted h.kernel hn ha
  have hself := hg.runAt_self hn h0 h.kernel
  have hle := hkeep.inv.owned.frames.wf.nRamFrames_le
  have hbound := hself.bound
  refine ⟨⟨?_, ?_, ?_⟩, ⟨hkeep.inv, ?_⟩, ?_⟩
  · unfold paddrToKvaddr mipsKseg0 pageSize
    omega
  · unfold paddrToKvaddr mipsKseg0 pageSize
    omega
  · intro r hr
    obtain ⟨f, hf⟩ := h.held r hr
    exact hf.apart_of_frames hn (hg.runAt_out h.kernel hf)
  · intro r hr
    rcases List.mem_cons.mp hr with rfl | hr
    · exact ⟨b, hself⟩
    · obtain ⟨f, hf⟩ := h.held r hr
      exact ⟨f, hg.runAt hn h.kernel hf⟩
  · intro c hc
    obtain ⟨hne, hc'⟩ := hg.kernelBlock hn h.kernel.owned hc
    exact ⟨hc', fun he => hne (paddrToKvaddr_inj he).symm⟩

theorem Linked.asked (h : Linked k runs) (ha : AskedPage k va k') :
    (va = 0 ∨ FreshRun runs va 1) ∧
      Linked k' (if va = 0 then runs else (va, 1) :: runs) ∧
      ∀ c, k.coremap.KernelBlock c → k'.coremap.KernelBlock c := by
  rcases ha with ⟨rfl, rfl⟩ | ha
  · exact ⟨Or.inl rfl, h, fun c hc => hc⟩
  · obtain ⟨hfresh, hl, hb⟩ := h.alloc Nat.one_pos ha
    rw [if_neg (allocKpages_ne_zero ha)]
    exact ⟨Or.inr hfresh, hl, fun c hc => (hb c hc).1⟩

/-- A run that is freed is no block any more; the others are. -/
theorem Linked.free (h : Linked k runs) {r : ℕ × ℕ} (hr : r ∈ runs)
    (hf : OS161.freeKpages k r.1 = .ok k') :
    Linked k' (runs.filter fun r' => r'.1 ≠ r.1) ∧
      ∀ c, k.coremap.KernelBlock c → r.1 ≠ paddrToKvaddr (c * pageSize) →
        k'.coremap.KernelBlock c := by
  obtain ⟨f, hrun⟩ := h.held r hr
  have hw := h.kernel.owned.frames.wf
  obtain ⟨rfl, hinv⟩ := freeKpages_runAt h.kernel hrun hf
  refine ⟨⟨hinv, fun r' hr' => ?_⟩, fun c hc hne => ?_⟩
  · obtain ⟨hmem, hne⟩ := List.mem_filter.mp hr'
    obtain ⟨f', hrun'⟩ := h.held r' hmem
    refine ⟨f', hrun'.release hw ?_⟩
    rintro rfl
    exact of_decide_eq_true hne (hrun'.addr.trans hrun.addr.symm)
  · refine hc.release hw hrun.kernelBlock ?_
    rintro rfl
    exact hne hrun.addr

/-- The answers that a call gets are such as the heap may get, and the runs of the heap are
blocks of the coremap after it. -/
theorem Traffic.linked (ht : w.Traffic w' n va va') (hn : 0 < n)
    (h : Linked w.kernel w.heap.runs) :
    (va = 0 ∨ FreshRun w.heap.runs va n) ∧
      (va' = 0 ∨ FreshRun ((va, 1) :: w.heap.runs) va' 1) ∧ Linked w'.kernel w'.heap.runs ∧
      ∀ c, w.kernel.coremap.KernelBlock c → w'.kernel.coremap.KernelBlock c := by
  cases ht with
  | none hk hr =>
    rw [hk, hr]
    exact ⟨Or.inl rfl, Or.inl rfl, h, fun c hc => hc⟩
  | pages ha hask hone hr =>
    have hva := allocKpages_ne_zero ha
    obtain ⟨hfresh, h₁, hb₁⟩ := h.alloc hn ha
    obtain ⟨hfresh', h₂, hb₂⟩ := h₁.asked hask
    rw [runs_allocKpages, runs_allocKpages, if_neg hva] at hr
    rw [hr]
    refine ⟨Or.inr hfresh, ?_, h₂, fun c hc => hb₂ c (hb₁ c hc).1⟩
    by_cases h0 : va' = 0
    · exact Or.inl h0
    · rwa [hone h0] at hfresh'
  | @returned _ _ k₁ k₂ ha hask hfree hone hr =>
    subst hone
    have hva := allocKpages_ne_zero ha
    obtain ⟨hfresh, h₁, hb₁⟩ := h.alloc hn ha
    obtain ⟨hfresh', h₂, hb₂⟩ := h₁.asked hask
    have hmem : (va, 1) ∈ if va' = 0 then (va, 1) :: w.heap.runs
        else (va', 1) :: (va, 1) :: w.heap.runs := by
      split_ifs
      · exact List.mem_cons_self
      · exact List.mem_cons_of_mem _ List.mem_cons_self
    obtain ⟨h₃, hb₃⟩ := h₂.free hmem hfree
    have hruns : w'.heap.runs = (((if va' = 0 then (va, 1) :: w.heap.runs
        else (va', 1) :: (va, 1) :: w.heap.runs)).filter fun r => r.1 ≠ va) := by
      rw [hr, Kheap.freeKpages, runs_allocKpages, runs_allocKpages, if_neg hva]
    rw [hruns]
    exact ⟨Or.inr hfresh, hfresh', h₃, fun c hc => hb₃ c (hb₂ c (hb₁ c hc).1) (hb₁ c hc).2⟩

/-! ## Safety -/

/-- What a call of `kmalloc` for `sz` bytes that returned `ptr` should have done. -/
structure Safe (w : KernelHeap) (sz ptr : ℕ) (w' : KernelHeap) : Prop where
  memory : ptr = 0 ∨ ∀ a, ptr ≤ a → a < ptr + sz → ∃ f < w'.kernel.coremap.nRamFrames,
    a / pageSize = paddrToKvaddr (f * pageSize) / pageSize ∧ w'.kernel.coremap.used f = true ∧
    w'.kernel.coremap.owner f = none ∧ ∀ e, w'.kernel.Live e → ¬(w'.kernel.pt e).InFrame f
  fresh : ptr = 0 ∨ ∀ b ∈ w.heap.live, Apart ptr sz b.1 b.2
  coremap : w'.kernel.coremap.WF
  scans : ∀ npages, 0 < npages → coremapFindFreeframes w'.kernel.coremap npages ≠ .error .hang
  kept : ∀ c, w.kernel.coremap.KernelBlock c → w'.kernel.coremap.KernelBlock c
  inv : (w'.entered ptr sz).Inv

theorem pagesFor_pos (hb : sz + pageSize - 1 < 2 ^ 32) : 0 < pagesFor sz := by
  unfold pagesFor
  split_ifs with hlarge
  · exact Kheap.npages_pos hlarge hb
  · exact Nat.one_pos

/-- Every byte of a run is in a frame of the kernel. -/
theorem Linked.memory (h : Linked k runs) {r : ℕ × ℕ} (hr : r ∈ runs) {a : ℕ} (h1 : r.1 ≤ a)
    (h2 : a < r.1 + r.2 * pageSize) : ∃ f < k.coremap.nRamFrames,
      a / pageSize = paddrToKvaddr (f * pageSize) / pageSize ∧ k.coremap.used f = true ∧
      k.coremap.owner f = none ∧ ∀ e, k.Live e → ¬(k.pt e).InFrame f := by
  obtain ⟨f, hf⟩ := h.held r hr
  have haddr := hf.addr
  have hbound := hf.bound
  unfold paddrToKvaddr mipsKseg0 pageSize at haddr
  unfold pageSize at h2
  have hin : f + (a - r.1) / 4096 < f + r.2 := by omega
  have howner := hf.owner _ (Nat.le_add_right _ _) hin
  refine ⟨f + (a - r.1) / 4096, by omega, ?_, hf.used _ (Nat.le_add_right _ _) hin, howner, ?_⟩
  · unfold paddrToKvaddr mipsKseg0 pageSize
    omega
  · intro e hl hframe
    have := (h.kernel.owned.frames.resident e _ hl hframe).2.2.2
    rw [howner] at this
    cases this

/-- A size that can be rounded up to pages is allocated safely. -/
theorem Inv.safe (h : w.Inv) (hb : sz + pageSize - 1 < 2 ^ 32) (hr : w.kmalloc sz = .ok (p, w')) :
    w.Safe sz p w' := by
  obtain ⟨va, va', hs, ht, hlive⟩ := kmalloc_sim hr
  obtain ⟨hva, hva', hl, hkept⟩ := ht.linked (pagesFor_pos hb) h.linked
  have hexec : w.heap.exec (.kmalloc sz va va') = .ok (w'.entered p sz).heap := by
    rw [Kheap.exec, hs, ok_bind]
    rfl
  have hallowed : w.heap.Allowed (.kmalloc sz va va') := ⟨hb, hva, hva'⟩
  have hinv : (w'.entered p sz).heap.Inv := Kheap.step_inv h.heap ⟨hallowed, hexec⟩
  have hruns : (w'.entered p sz).heap.runs = w'.heap.runs := by
    unfold entered
    split_ifs <;> rfl
  have hwf := hl.kernel.owned.frames.wf
  have hscans : ∀ npages, 0 < npages →
      coremapFindFreeframes w'.kernel.coremap npages ≠ .error .hang := by
    intro npages hn
    rcases coremapFindFreeframes_spec hwf hn with ⟨b, he, -⟩ | ⟨he, -⟩
    · rw [he]
      exact fun hcon => by cases hcon
    · rw [he]
      exact fun hcon => by cases hcon
  by_cases h0 : p = 0
  · exact ⟨Or.inl h0, Or.inl h0, hwf, hscans, hkept, hinv, by rw [hruns]; exact hl⟩
  have hblocks : (w'.entered p sz).heap.live = (p, sz) :: w.heap.live := by
    unfold entered
    rw [if_neg h0, ← hlive]
  have hsound := hinv.sound
  have hnew : (p, sz) ∈ (w'.entered p sz).heap.live := by
    rw [hblocks]
    exact List.mem_cons_self
  have hfits := hsound.fits _ hnew
  refine ⟨Or.inr fun a h1 h2 => ?_, Or.inr fun b hbl => ?_, hwf, hscans, hkept, hinv, ?_⟩
  · obtain ⟨r, hrun, hw1, hw2⟩ := hsound.within _ hnew
    rw [hruns] at hrun
    exact hl.memory hrun (by omega) (by omega)
  · have hdis := hsound.disjoint
    have hfits' := hsound.fits b (by rw [hblocks]; exact List.mem_cons_of_mem _ hbl)
    rw [hblocks] at hdis
    have hap := (List.pairwise_cons.mp hdis).1 b hbl
    unfold Apart at hap ⊢
    omega
  · rw [hruns]
    exact hl

/-- A request for pages gets an address. -/
theorem kmalloc_ne_zero (hlarge : largestSubpageSize ≤ sz) (hr : w.kmalloc sz = .ok (p, w')) :
    p ≠ 0 := by
  rw [kmalloc, if_pos hlarge] at hr
  obtain ⟨⟨va, w₁⟩, hw₁, h⟩ := bind_eq_ok.mp hr
  have hva := allocKpages_ne_zero (allocKpages_eq_ok hw₁).1
  dsimp only at h
  rw [if_neg hva] at h
  obtain ⟨_, -, h⟩ := bind_eq_ok.mp h
  cases h
  exact hva

/-- No memory has room for a size that overflows. -/
theorem Safe.rounds (h : w.Safe sz p w') (hr : w.kmalloc sz = .ok (p, w')) :
    sz + pageSize - 1 < 2 ^ 32 := by
  by_contra hcon
  unfold pageSize at hcon
  have hlarge : largestSubpageSize ≤ sz := by
    unfold largestSubpageSize
    omega
  obtain ⟨f, hf, ha, -⟩ := h.memory.resolve_left (kmalloc_ne_zero hlarge hr) (p + sz - 1)
    (by omega) (by omega)
  have hle := h.coremap.nRamFrames_le
  unfold paddrToKvaddr mipsKseg0 pageSize at ha
  omega

end KernelHeap

/-- A call of `kmalloc` that returns has done what it should exactly if the size can be rounded
up to pages in 32 bits. -/
theorem kmalloc_safe_iff {w w' : KernelHeap} {sz ptr : ℕ} (h : w.Inv)
    (hr : w.kmalloc sz = .ok (ptr, w')) : w.Safe sz ptr w' ↔ sz + pageSize - 1 < 2 ^ 32 :=
  ⟨fun hs => hs.rounds hr, fun hb => h.safe hb hr⟩

/-- A heap without pages stands in every kernel. -/
theorem KernelHeap.start_inv {k : Kernel} (hk : k.Inv) (mem : ℕ → ℕ) :
    KernelHeap.Inv ⟨.start mem, k⟩ :=
  ⟨Kheap.start_inv mem, hk, fun _ hr => absurd hr List.not_mem_nil⟩

theorem kmalloc_safe_iff_small : ∃ ptr w',
    KernelHeap.kmalloc ⟨.start fun _ => 0, (Sys.small 4).kernel⟩ 5000 = .ok (ptr, w') ∧
    KernelHeap.Safe ⟨.start fun _ => 0, (Sys.small 4).kernel⟩ 5000 ptr w' := by
  have heval : (KernelHeap.kmalloc ⟨.start fun _ => 0, (Sys.small 4).kernel⟩ 5000).toOption.map
      Prod.fst = some 0x80002000 := by
    decide +kernel
  obtain ⟨⟨ptr, w'⟩, hr, -⟩ := Option.map_eq_some_iff.mp heval
  have hr := eq_ok_of_toOption hr
  have hboot : Sys.Boot (4 * pageSize) (paddrToKvaddr pageSize) (.small 4) :=
    Sys.small_boot (by decide) (by decide)
  have hinv := KernelHeap.start_inv hboot.inv.kernel fun _ => 0
  exact ⟨ptr, w', hr, (kmalloc_safe_iff hinv hr).mpr (by decide)⟩

/-- A process has pages in memory and `kmalloc` is asked for `2 ^ 32 - 1` bytes. It returns the
frame of a page with the size `0`, and the next search for a frame does not end. -/
theorem kmalloc_wraps : ∃ tr s ptr w', Run Sys.Step (.small 4) tr s ∧
    KernelHeap.kmalloc ⟨.start fun _ => 0, s.kernel⟩ 0xffffffff = .ok (ptr, w') ∧ ptr ≠ 0 ∧
    (∃ f, ptr = paddrToKvaddr (f * pageSize) ∧ w'.kernel.coremap.used f = true ∧
      w'.kernel.coremap.size f = 0) ∧
    coremapFindFreeframes w'.kernel.coremap 1 = .error .hang := by
  have heval : ((execute Sys.next [] (.small 4) [.build 1 Sys.smallFile, .store 0x10000001 7]).bind
      fun r => (KernelHeap.kmalloc ⟨.start fun _ => 0, r.2.kernel⟩ 0xffffffff).toOption.map fun q =>
        decide (q.1 = paddrToKvaddr (2 * pageSize) ∧ q.2.kernel.coremap.used 2 = true ∧
          q.2.kernel.coremap.size 2 = 0 ∧
          (findFreeframesLoop q.2.kernel.coremap 1 (q.2.kernel.coremap.nRamFrames + 1) 0
            none).isNone))
      = some true := by
    decide +kernel
  obtain ⟨⟨tr, s⟩, hex, h⟩ := Option.bind_eq_some_iff.mp heval
  obtain ⟨⟨ptr, w'⟩, hr, h⟩ := Option.map_eq_some_iff.mp h
  obtain ⟨hptr, hused, hsize, hloop⟩ := of_decide_eq_true h
  dsimp only at hptr hused hsize hloop
  refine ⟨tr, s, ptr, w', .of_execute hex Sys.step_of_next, eq_ok_of_toOption hr, ?_,
    ⟨2, hptr, hused, hsize⟩,
    ?_⟩
  · rw [hptr]
    decide
  · rw [coremapFindFreeframes, Option.isNone_iff_eq_none.mp hloop]

end OS161
