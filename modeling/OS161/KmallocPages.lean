import OS161.KmallocInv

/-!
# Pages and pagerefs of the kernel heap

What the heap does with whole pages. `Rep.alloc` and `Rep.release` are the calls of
`alloc_kpages` and `free_kpages`, which make a run of pages loose and give back a loose one.
A loose run becomes a page of pagerefs (`Rep.rootPage`) or a large block (`Rep.large`), and a
large block that is freed is a loose run (`Rep.freeLarge`).

`allocpageref_cases` and `freepageref_eq` say what becomes of the roots. An entry that was
marked for a page of pagerefs that could not be had stays marked, and when all entries of a
root are, the page is never asked for again : every `freepageref` of a later root then fails.
-/

namespace OS161

theorem perm_cons_filter {α β : Type} [DecidableEq β] {f : α → β} {b : α} :
    ∀ {l : List α}, (l.map f).Nodup → b ∈ l → l.Perm (b :: l.filter fun c => f c ≠ f b)
  | x :: l, hnd, hb => by
    obtain ⟨hx, hnd⟩ := List.nodup_cons.mp hnd
    rcases List.mem_cons.mp hb with rfl | hb
    · have hall : ∀ c ∈ l, f c ≠ f b := fun c hc he => hx (List.mem_map.mpr ⟨c, hc, he⟩)
      rw [List.filter_cons_of_neg (by simp), List.filter_eq_self.mpr (by simpa using hall)]
    · have hne : f x ≠ f b := fun he => hx (List.mem_map.mpr ⟨b, hb, he.symm⟩)
      rw [List.filter_cons_of_pos (by simpa using hne)]
      exact ((perm_cons_filter hnd hb).cons x).trans (.swap _ _ _)

namespace Kheap

variable {s : Kheap} {us : List Subpage} {loose : List (ℕ × ℕ)} {u : Subpage} {va n sz p r k : ℕ}
  {x : ℕ × ℕ} {l : List (ℕ × ℕ)} {r' : ℕ}

/-! ## Runs of pages -/

theorem perm_loose (us : List Subpage) (l l' loose : List (ℕ × ℕ)) (x : ℕ × ℕ) :
    (pageRuns us ++ (l ++ (l' ++ x :: loose))).Perm
      (x :: (pageRuns us ++ (l ++ (l' ++ loose)))) := by
  have hmid : ((pageRuns us ++ l ++ l') ++ x :: loose).Perm
      (x :: ((pageRuns us ++ l ++ l') ++ loose)) := List.perm_middle
  simpa only [List.append_assoc] using hmid

theorem allocKpages_of_ne (h : va ≠ 0) :
    s.allocKpages va n = { s with runs := (va, n) :: s.runs } :=
  if_neg h

/-- The pages that `alloc_kpages` gives are loose. -/
theorem Rep.alloc (h : s.Rep us loose) (hva : va ≠ 0) (hn : 0 < n)
    (hf : FreshRun s.runs va n) : (s.allocKpages va n).Rep us ((va, n) :: loose) := by
  obtain ⟨hal, hlt, hap⟩ := hf
  rw [allocKpages_of_ne hva]
  refine ⟨⟨List.pairwise_cons.mpr ⟨hap, h.apart⟩, ?_, ?_, h.counted, h.pageref⟩, h.toListsIn,
    h.toBlocksOf⟩
  · intro r hr
    rcases List.mem_cons.mp hr with rfl | hr
    · exact ⟨hva, hal, hn, hlt⟩
    · exact h.run r hr
  · exact (h.owners.cons _).trans (perm_loose us _ _ loose (va, n)).symm

/-- A loose run has no byte in common with the others. -/
theorem Rep.loose_apart (h : s.Rep us (x :: loose)) :
    ∀ y ∈ pageRuns us ++ (s.rootRuns ++ (s.largeRuns ++ loose)), RunsApart x y := by
  have hp := h.pairwise.perm (perm_loose us _ _ loose x) RunsApart.symm
  exact (List.pairwise_cons.mp hp).1

theorem Rep.loose_run (h : s.Rep us (x :: loose)) :
    x.1 ≠ 0 ∧ x.1 % pageSize = 0 ∧ 0 < x.2 ∧ x.1 + x.2 * pageSize < 2 ^ 32 :=
  h.run x (h.mem_runs.mpr (.inr (.inr (.inr List.mem_cons_self))))

theorem Rep.loose_apart_page (h : s.Rep us (x :: loose)) (hu : u ∈ us) :
    Apart x.1 (x.2 * pageSize) u.page pageSize := by
  have := h.loose_apart (u.page, 1) (List.mem_append_left _ (List.mem_map.mpr ⟨u, hu, rfl⟩))
  simpa only [RunsApart, one_mul] using this

/-- `free_kpages` of a loose run. -/
theorem Rep.release (h : s.Rep us ((va, n) :: loose)) : (s.freeKpages va).Rep us loose := by
  have hperm := h.owners.trans (perm_loose us s.rootRuns s.largeRuns loose (va, n))
  refine ⟨⟨h.apart.filter _, fun r hr => h.run r (List.mem_filter.mp hr).1, ?_, h.counted,
    h.pageref⟩, h.toListsIn, h.toBlocksOf⟩
  have hne : ∀ y ∈ pageRuns us ++ (s.rootRuns ++ (s.largeRuns ++ loose)),
      decide (y.1 ≠ va) = true := by
    intro y hy
    have hap := h.loose_apart y hy
    obtain ⟨-, -, hpos, -⟩ := h.run y (hperm.mem_iff.mpr (List.mem_cons_of_mem _ hy))
    obtain ⟨-, -, hn, -⟩ := h.loose_run
    unfold RunsApart Apart pageSize at hap
    rw [decide_eq_true_eq]
    omega
  have hfilter := hperm.filter fun r => decide (r.1 ≠ va)
  rw [List.filter_cons_of_neg (by simp), List.filter_eq_self.mpr hne] at hfilter
  exact hfilter

/-! ## Large blocks -/

theorem Rep.block_outside (h : s.Rep us (x :: loose)) (hu : u ∈ us) {b : ℕ}
    (hb : u.IsBlock b) : b < x.1 ∨ x.1 + x.2 * pageSize ≤ b := by
  have hap := h.loose_apart_page hu
  obtain ⟨hlo, hhi, -⟩ := hb.lt (h.wf u hu)
  unfold Apart at hap
  omega

/-- A pointer that is live does not point into a loose run. -/
theorem Rep.live_outside {b : ℕ × ℕ} (h : s.Rep us (x :: loose)) (hb : b ∈ s.live) :
    b.1 < x.1 ∨ x.1 + x.2 * pageSize ≤ b.1 := by
  by_cases hsz : b.2 < largestSubpageSize
  · obtain ⟨u, hu, hblock, -⟩ := h.small b hb hsz
    exact h.block_outside hu hblock
  · have hap := h.loose_apart _ (List.mem_append_right _ (List.mem_append_right _
      (List.mem_append_left _ (large_mem hb (Nat.not_lt.mp hsz)))))
    obtain ⟨-, -, hpos, -⟩ := h.large_run hb (Nat.not_lt.mp hsz)
    unfold RunsApart Apart pageSize at hap
    unfold pageSize
    omega

theorem Rep.block_ne_loose (h : s.Rep us (x :: loose)) (hu : u ∈ us) {b : ℕ}
    (hb : u.IsBlock b) : x.1 ≠ b := by
  obtain ⟨-, -, hx, -⟩ := h.loose_run
  have hout := h.block_outside hu hb
  unfold pageSize at hout
  omega

/-- A loose run becomes a block. -/
theorem Rep.large (h : s.Rep us ((va, npages sz) :: loose)) (hsz : largestSubpageSize ≤ sz)
    (hbound : sz + pageSize - 1 < 2 ^ 32) :
    { s with live := (va, sz) :: s.live }.Rep us loose := by
  refine ⟨⟨h.apart, h.run, ?_, h.counted, h.pageref⟩, h.toListsIn, ?_, ?_, ?_, ?_⟩
  · have hlarge : largeRuns { s with live := (va, sz) :: s.live } =
        (va, npages sz) :: s.largeRuns := by
      rw [largeRuns, List.filter_cons_of_pos (by simpa using hsz)]
      rfl
    rw [hlarge]
    refine h.owners.trans ((List.perm_middle.append_left s.rootRuns).append_left (pageRuns us))
  · refine List.nodup_cons.mpr ⟨fun hm => ?_, h.nodup⟩
    obtain ⟨b, hb, he⟩ := List.mem_map.mp hm
    obtain ⟨-, -, hn, -⟩ := h.loose_run
    have := h.live_outside hb
    unfold pageSize at this
    omega
  · intro b hb
    rcases List.mem_cons.mp hb with rfl | hb
    · exact hbound
    · exact h.bound b hb
  · intro b hb hlt
    rcases List.mem_cons.mp hb with rfl | hb
    · exact absurd hlt (Nat.not_lt.mpr hsz)
    · exact h.small b hb hlt
  · intro u hu b hb
    rw [h.free u hu b hb, List.forall_mem_cons]
    exact (and_iff_right (h.block_ne_loose hu hb)).symm

theorem mem_filter_ne {b : ℕ × ℕ} :
    b ∈ l.filter (fun c => c.1 ≠ p) ↔ b ∈ l ∧ b.1 ≠ p := by
  rw [List.mem_filter, decide_eq_true_eq]

theorem nodup_filter_ne (h : (l.map Prod.fst).Nodup) :
    ((l.filter fun c => c.1 ≠ p).map Prod.fst).Nodup :=
  h.sublist (List.filter_sublist.map Prod.fst)

/-- A block that does not share a page is freed. -/
theorem Rep.freeLarge (h : s.Rep us loose) (hb : (p, sz) ∈ s.live)
    (hsz : largestSubpageSize ≤ sz) :
    { s with live := s.live.filter fun b => b.1 ≠ p }.Rep us ((p, npages sz) :: loose) := by
  have hperm := perm_cons_filter (b := (p, sz)) h.nodup hb
  refine ⟨⟨h.apart, h.run, ?_, h.counted, h.pageref⟩, h.toListsIn, nodup_filter_ne h.nodup,
    fun b hb => h.bound b (mem_filter_ne.mp hb).1, fun b hb => h.small b (mem_filter_ne.mp hb).1,
    ?_⟩
  · have hlarge : s.largeRuns.Perm ((p, npages sz) ::
        largeRuns { s with live := s.live.filter fun b => b.1 ≠ p }) := by
      have := (hperm.filter fun b => decide (largestSubpageSize ≤ b.2)).map
        fun b => (b.1, npages b.2)
      rwa [List.filter_cons_of_pos (by simpa using hsz)] at this
    refine h.owners.trans (List.Perm.append_left _ (List.Perm.append_left _ ?_))
    exact (hlarge.append_right loose).trans List.perm_middle.symm
  · intro u hu b hub
    rw [h.free u hu b hub]
    have hne : b ≠ p := fun he =>
      absurd (h.small_of_block hu hb (he ▸ hub)) (Nat.not_lt.mpr hsz)
    constructor
    · intro hall c hc
      exact hall c (mem_filter_ne.mp hc).1
    · intro hall c hc he
      exact hall c (mem_filter_ne.mpr ⟨hc, fun hp => hne (he.symm.trans hp)⟩) he

/-! ## Roots -/

theorem setRoot_self (root : KheapRoot) : (s.setRoot r root).kheaproots r = root :=
  Function.update_self ..

theorem setRoot_of_ne (root : KheapRoot) (h : r' ≠ r) :
    (s.setRoot r root).kheaproots r' = s.kheaproots r' :=
  Function.update_of_ne h ..

theorem counted_setRoot {root : KheapRoot} (hc : ∀ r < numPagerefpages, (s.kheaproots r).Counted)
    (hroot : root.Counted) :
    ∀ r' < numPagerefpages, ((s.setRoot r root).kheaproots r').Counted := by
  intro r' hr'
  by_cases he : r' = r
  · rw [he, setRoot_self]
    exact hroot
  · rw [setRoot_of_ne _ he]
    exact hc r' hr'

/-- A root is changed in such a way that its page stays and its entries in use are counted. -/
theorem Rep.setRoot {root : KheapRoot} (h : s.Rep us loose)
    (hpage : root.page = (s.kheaproots r).page) (hc : root.Counted)
    (hin : ∀ u ∈ us, (s.setRoot r root).IsPageref u.pr) : (s.setRoot r root).Rep us loose := by
  have hpages : ∀ r', ((s.setRoot r root).kheaproots r').page = (s.kheaproots r').page := by
    intro r'
    by_cases he : r' = r
    · rw [he, setRoot_self, hpage]
    · rw [setRoot_of_ne _ he]
  have hroots : (s.setRoot r root).rootRuns = s.rootRuns := by
    unfold rootRuns
    simp only [hpages]
  refine ⟨⟨h.apart, h.run, ?_, counted_setRoot h.counted hc, hin⟩, h.toListsIn, h.toBlocksOf⟩
  rw [hroots]
  exact h.owners

theorem IsPageref.setRoot {root : KheapRoot} (hp : s.IsPageref p)
    (hkeep : ∀ k, (s.kheaproots r).page ≠ 0 → (s.kheaproots r).Inuse k →
      p = (s.kheaproots r).page + k * pagerefSize →
      root.page = (s.kheaproots r).page ∧ root.Inuse k) : (s.setRoot r root).IsPageref p := by
  obtain ⟨r', hr', k, hk, h0, hin, hp⟩ := hp
  refine ⟨r', hr', k, hk, ?_⟩
  by_cases he : r' = r
  · subst he
    obtain ⟨hpage, hin'⟩ := hkeep k h0 hin hp
    rw [setRoot_self, hpage]
    exact ⟨h0, hin', hp⟩
  · rw [setRoot_of_ne _ he]
    exact ⟨h0, hin, hp⟩

theorem Rep.mark (h : s.Rep us loose) (hr : r < numPagerefpages) (hk : k < npagerefsPerPage)
    (hn : ¬(s.kheaproots r).Inuse k) : (s.setRoot r ((s.kheaproots r).mark k)).Rep us loose :=
  h.setRoot rfl ((h.counted r hr).mark hk hn) fun u hu => (h.pageref u hu).setRoot
    fun _ _ hin _ => ⟨rfl, KheapRoot.inuse_mark.mpr (.inl hin)⟩

/-- An entry of a page is one of one root. -/
theorem Rep.slot_unique (h : s.Rep us loose) {k' : ℕ} (hr : r < numPagerefpages)
    (hr' : r' < numPagerefpages) (hk : k < npagerefsPerPage) (hk' : k' < npagerefsPerPage)
    (h0 : (s.kheaproots r).page ≠ 0) (h0' : (s.kheaproots r').page ≠ 0)
    (heq : (s.kheaproots r).page + k * pagerefSize = (s.kheaproots r').page + k' * pagerefSize) :
    r = r' ∧ k = k' := by
  have h1 : npagerefsPerPage = 256 := rfl
  unfold pagerefSize at heq
  by_cases he : r = r'
  · subst he
    refine ⟨rfl, ?_⟩
    omega
  · have hap := h.root_apart hr hr' h0 h0' he
    unfold Apart pageSize at hap
    omega

theorem Rep.unmark (h : s.Rep us loose) (hr : r < numPagerefpages) (hk : k < npagerefsPerPage)
    (hin : (s.kheaproots r).Inuse k)
    (hus : ∀ u ∈ us, u.pr ≠ (s.kheaproots r).page + k * pagerefSize) :
    (s.setRoot r ((s.kheaproots r).unmark k)).Rep us loose :=
  h.setRoot rfl ((h.counted r hr).unmark hk hin).2 fun u hu => (h.pageref u hu).setRoot
    fun _ _ hin' he => ⟨rfl, KheapRoot.inuse_unmark.mpr ⟨hin', fun hkk => hus u hu (hkk ▸ he)⟩⟩

/-- A loose page becomes the page of a root that has none. -/
theorem Rep.rootPage (h : s.Rep us ((va, 1) :: loose)) (hr : r < numPagerefpages)
    (h0 : (s.kheaproots r).page = 0) :
    (s.setRoot r { s.kheaproots r with page := va }).Rep us loose := by
  obtain ⟨hva, -⟩ := h.loose_run
  refine ⟨⟨h.apart, h.run, ?_, counted_setRoot h.counted (h.counted r hr), ?_⟩, h.toListsIn,
    h.toBlocksOf⟩
  · -- The list of roots with `r` at its front.
    have hrange := List.perm_cons_erase (List.mem_range.mpr hr)
    have hnd : r ∉ (List.range numPagerefpages).erase r :=
      List.nodup_range.not_mem_erase
    have hroots : (s.setRoot r { s.kheaproots r with page := va }).rootRuns.Perm
        ((va, 1) :: s.rootRuns) := by
      have hnew := (hrange.filter fun r' =>
        decide (((s.setRoot r { s.kheaproots r with page := va }).kheaproots r').page ≠ 0)).map
        fun r' => (((s.setRoot r { s.kheaproots r with page := va }).kheaproots r').page, 1)
      have hold := (hrange.filter fun r' => decide ((s.kheaproots r').page ≠ 0)).map
        fun r' => ((s.kheaproots r').page, 1)
      rw [List.filter_cons_of_pos (by rw [setRoot_self]; simpa using hva), List.map_cons,
        setRoot_self] at hnew
      rw [List.filter_cons_of_neg (by simpa using h0)] at hold
      refine hnew.trans (List.Perm.cons _ (List.Perm.trans (.of_eq ?_) hold.symm))
      rw [List.filter_congr (q := fun r' => decide ((s.kheaproots r').page ≠ 0))]
      · refine List.map_congr_left fun r' hr' => ?_
        rw [setRoot_of_ne _ (ne_of_mem_of_not_mem (List.mem_filter.mp hr').1 hnd)]
      · intro r' hr'
        rw [setRoot_of_ne _ (ne_of_mem_of_not_mem hr' hnd)]
    refine h.owners.trans (List.Perm.append_left _ ?_)
    have hmid : ((s.rootRuns ++ s.largeRuns) ++ (va, 1) :: loose).Perm
        ((va, 1) :: ((s.rootRuns ++ s.largeRuns) ++ loose)) := List.perm_middle
    simp only [List.append_assoc] at hmid
    exact hmid.trans (hroots.symm.append_right _)
  · exact fun u hu => (h.pageref u hu).setRoot fun _ h0' => (h0' h0).elim

/-! ## Pagerefs -/

/-- What `allocpageref` does once it has found entry `k` of root `r`. -/
def takeSlot (s : Kheap) (va r k : ℕ) : Except Halt (ℕ × Kheap) := do
  let s' := s.setRoot r ((s.kheaproots r).mark k)
  let s' ← if (s.kheaproots r).page = 0 then s'.allocpagerefpage r va else .ok s'
  let page := (s'.kheaproots r).page
  if page = 0 then .ok (0, s') else .ok (page + k * pagerefSize, s')

theorem allocpagerefLoop_eq (va : ℕ) (hc : ∀ r < numPagerefpages, (s.kheaproots r).Counted) :
    ∀ (rs : List ℕ), (∀ r ∈ rs, r < numPagerefpages) → s.allocpagerefLoop va rs = .ok (0, s) ∨
      ∃ pre r post k, rs = pre ++ r :: post ∧
        (∀ r' ∈ pre, npagerefsPerPage ≤ (s.kheaproots r').numinuse) ∧ k < npagerefsPerPage ∧
        ¬(s.kheaproots r).Inuse k ∧ s.allocpagerefLoop va rs = s.takeSlot va r k
  | [], _ => .inl rfl
  | r :: rs, hrs => by
    rw [allocpagerefLoop]
    by_cases hfull : npagerefsPerPage ≤ (s.kheaproots r).numinuse
    · rw [if_pos hfull]
      rcases allocpagerefLoop_eq va hc rs fun r' hr' => hrs r' (List.mem_cons_of_mem _ hr')
        with h | ⟨pre, r', post, k, rfl, hpre, hk, hn, h⟩
      · exact .inl h
      · exact .inr ⟨r :: pre, r', post, k, rfl, List.forall_mem_cons.mpr ⟨hfull, hpre⟩, hk, hn, h⟩
    · obtain ⟨k, hk, hn, hfind⟩ := KheapRoot.findClear_eq (hc r (hrs r List.mem_cons_self))
        (Nat.not_le.mp hfull)
      refine .inr ⟨[], r, rs, k, rfl, nofun, hk, hn, ?_⟩
      rw [if_neg hfull, hfind, ok_bind]
      dsimp only
      have hkk : k / 32 * 32 + k % 32 = k := by omega
      rw [hkk]
      rfl

/-- The entries of a page that come before another one. -/
theorem mem_of_range_eq {n r : ℕ} {pre post : List ℕ} (h : List.range n = pre ++ r :: post)
    (hlt : r' < r) : r' ∈ pre := by
  have hr : r < n := List.mem_range.mp (h ▸ List.mem_append_right _ List.mem_cons_self)
  have hmem : r' ∈ pre ++ r :: post := h ▸ List.mem_range.mpr (hlt.trans hr)
  have hsorted : (pre ++ r :: post).Pairwise (· < ·) := h ▸ List.pairwise_lt_range
  rcases List.mem_append.mp hmem with hm | hm
  · exact hm
  · rcases List.mem_cons.mp hm with rfl | hm
    · exact (lt_irrefl _ hlt).elim
    · have := (List.pairwise_cons.mp (List.pairwise_append.mp hsorted).2.1).1 r' hm
      omega

/-- `allocpageref` marks an entry of the first root that is not full. If the root has no page
and there is none to be had, the entry stays marked. -/
theorem allocpageref_cases (hc : ∀ r < numPagerefpages, (s.kheaproots r).Counted)
    (hva : va % pageSize = 0) :
    s.allocpageref va = .ok (0, s) ∨
    ∃ r < numPagerefpages, ∃ k < npagerefsPerPage,
      (∀ r' < r, npagerefsPerPage ≤ (s.kheaproots r').numinuse) ∧ ¬(s.kheaproots r).Inuse k ∧
      ((s.kheaproots r).page ≠ 0 ∧ s.allocpageref va = .ok ((s.kheaproots r).page + k * pagerefSize,
          s.setRoot r ((s.kheaproots r).mark k)) ∨
        (s.kheaproots r).page = 0 ∧ va = 0 ∧
          s.allocpageref va = .ok (0, s.setRoot r ((s.kheaproots r).mark k)) ∨
        (s.kheaproots r).page = 0 ∧ va ≠ 0 ∧ s.allocpageref va = .ok (va + k * pagerefSize,
          (((s.setRoot r ((s.kheaproots r).mark k)).allocKpages va 1).setRoot r
            { (s.kheaproots r).mark k with page := va }))) := by
  rcases allocpagerefLoop_eq va hc _ fun r hr => List.mem_range.mp hr with
    h | ⟨pre, r, post, k, hrs, hpre, hk, hn, h⟩
  · exact .inl h
  · have hr : r < numPagerefpages :=
      List.mem_range.mp (hrs ▸ List.mem_append_right _ List.mem_cons_self)
    refine .inr ⟨r, hr, k, hk, fun r' hr' => hpre r' (mem_of_range_eq hrs hr'), hn, ?_⟩
    unfold allocpageref
    rw [h, takeSlot]
    by_cases h0 : (s.kheaproots r).page = 0
    · rw [if_pos h0, allocpagerefpage, kassert_pos (by rw [setRoot_self]; exact h0), ok_bind]
      by_cases hva0 : va = 0
      · refine .inr (.inl ⟨h0, hva0, ?_⟩)
        rw [if_pos hva0, ok_bind]
        dsimp only
        rw [setRoot_self]
        exact if_pos h0
      · refine .inr (.inr ⟨h0, hva0, ?_⟩)
        rw [if_neg hva0, kassert_pos hva, ok_bind, ok_bind, setRoot_self]
        dsimp only
        rw [setRoot_self]
        exact if_neg hva0
    · refine .inl ⟨h0, ?_⟩
      rw [if_neg h0, ok_bind]
      dsimp only
      rw [setRoot_self]
      exact if_neg h0

/-- The entry that `allocpageref` finds was not in use, and is. -/
theorem Rep.allocpageref (h : s.Rep us loose) (hva : va = 0 ∨ FreshRun s.runs va 1) :
    ∃ p s', s.allocpageref va = .ok (p, s') ∧ s'.Rep us loose ∧ s'.mem = s.mem ∧
      s'.allbase = s.allbase ∧ s'.sizebases = s.sizebases ∧ s'.live = s.live ∧
      (p ≠ 0 → s'.IsPageref p ∧ ∀ u ∈ us, u.pr ≠ p) := by
  have hal : va % pageSize = 0 := by
    rcases hva with rfl | hf
    · rfl
    · exact hf.1
  rcases allocpageref_cases h.counted hal with he | ⟨r, hr, k, hk, -, hn, hcase⟩
  · exact ⟨0, s, he, h, rfl, rfl, rfl, rfl, fun h0 => (h0 rfl).elim⟩
  · have hmark := h.mark hr hk hn
    rcases hcase with ⟨h0, he⟩ | ⟨h0, -, he⟩ | ⟨h0, hva0, he⟩
    · refine ⟨_, _, he, hmark, rfl, rfl, rfl, rfl, fun _ => ⟨⟨r, hr, k, hk, ?_⟩, ?_⟩⟩
      · rw [setRoot_self]
        exact ⟨h0, KheapRoot.inuse_mark.mpr (.inr rfl), rfl⟩
      · intro u hu heq
        obtain ⟨r', hr', k', hk', h0', hin, hpr⟩ := h.pageref u hu
        obtain ⟨rfl, rfl⟩ := h.slot_unique hr' hr hk' hk h0' h0 (hpr.symm.trans heq)
        exact hn hin
    · exact ⟨0, _, he, hmark, rfl, rfl, rfl, rfl, fun h0 => (h0 rfl).elim⟩
    · have hrep := (hmark.alloc hva0 Nat.one_pos (hva.resolve_left hva0))
      have hpage : ((((s.setRoot r ((s.kheaproots r).mark k)).allocKpages va 1).kheaproots r)) =
          (s.kheaproots r).mark k := by
        rw [allocKpages_of_ne hva0]
        exact setRoot_self _
      have hroot := hrep.rootPage hr (by rw [hpage]; exact h0)
      rw [hpage] at hroot
      have hpref : ((((s.setRoot r ((s.kheaproots r).mark k)).allocKpages va 1).setRoot r
          { (s.kheaproots r).mark k with page := va })).IsPageref (va + k * pagerefSize) := by
        refine ⟨r, hr, k, hk, ?_⟩
        rw [setRoot_self]
        exact ⟨hva0, KheapRoot.inuse_mark.mpr (.inr rfl), rfl⟩
      rw [allocKpages_of_ne hva0] at *
      refine ⟨_, _, he, hroot, rfl, rfl, rfl, rfl, fun _ => ⟨hpref, ?_⟩⟩
      intro u hu heq
      -- The page is new, so no pageref was in it before.
      obtain ⟨r', hr', k', hk', h0', hin, hpr⟩ := h.pageref u hu
      have hap := (hva.resolve_left hva0).2.2 _ (h.root_mem hr' h0')
      have h1 : npagerefsPerPage = 256 := rfl
      unfold pagerefSize at hpr heq
      unfold Apart pageSize at hap
      omega

theorem ptrDiff_eq {q : ℕ} (hq : q ≤ p) (hp : p < q + pageSize) :
    ptrDiff p q pagerefSize = (p - q) / pagerefSize := by
  unfold ptrDiff pagerefSize
  unfold pageSize at hp
  simp only [Int.bmod]
  omega

theorem le_ptrDiff {q : ℕ} (hp : p < 2 ^ 32) (hq : q + pageSize < 2 ^ 32)
    (hal : p % 16 = 0) (hal' : q % 16 = 0) (hap : p < q ∨ q + pageSize ≤ p) :
    npagerefsPerPage ≤ ptrDiff p q pagerefSize := by
  have h1 : npagerefsPerPage = 256 := rfl
  unfold ptrDiff pagerefSize
  unfold pageSize at hap hq
  simp only [Int.bmod]
  omega

/-- The roots before the one that has the entry are passed, unless one of them has marked
entries and no page. -/
theorem freepagerefLoop_eq (post : List ℕ) (h0 : (s.kheaproots r).page ≠ 0)
    (hk : k < npagerefsPerPage) (hc : (s.kheaproots r).Counted) (hin : (s.kheaproots r).Inuse k)
    (hp : p = (s.kheaproots r).page + k * pagerefSize) :
    ∀ (pre : List ℕ), (∀ r' ∈ pre, (s.kheaproots r').page ≠ 0 →
        npagerefsPerPage ≤ ptrDiff p (s.kheaproots r').page pagerefSize) →
      s.freepagerefLoop p (pre ++ r :: post) =
        if ∃ r' ∈ pre, (s.kheaproots r').page = 0 ∧ (s.kheaproots r').numinuse ≠ 0 then
          .error (.kassert "root->numinuse == 0")
        else .ok (s.setRoot r ((s.kheaproots r).unmark k))
  | [], _ => by
    have h1 : npagerefsPerPage = 256 := rfl
    have hdiff : ptrDiff p (s.kheaproots r).page pagerefSize = k := by
      rw [ptrDiff_eq (by omega) (by unfold pagerefSize at hp; unfold pageSize; omega)]
      unfold pagerefSize at hp ⊢
      omega
    rw [if_neg (by simp), List.nil_append, freepagerefLoop]
    dsimp only
    rw [if_neg h0, hdiff, if_pos hk, kassert_pos, kassert_pos (hc.unmark hk hin).1]
    · rfl
    · intro hz
      rw [and_shiftLeft_eq_zero (Nat.mod_lt _ (by decide))] at hz
      exact absurd (hin.symm.trans hz) nofun
  | r' :: pre, hpre => by
    have ih := freepagerefLoop_eq post h0 hk hc hin hp pre
      fun r'' hr'' => hpre r'' (List.mem_cons_of_mem _ hr'')
    rw [List.cons_append, freepagerefLoop]
    by_cases hpage : (s.kheaproots r').page = 0
    · rw [if_pos hpage]
      by_cases hnum : (s.kheaproots r').numinuse = 0
      · rw [kassert_pos hnum, ok_bind, ih]
        refine if_congr ?_ rfl rfl
        simp [hnum]
      · rw [if_pos ⟨r', List.mem_cons_self, hpage, hnum⟩, kassert, if_neg hnum]
        rfl
    · rw [if_neg hpage, if_neg (Nat.not_lt.mpr (hpre r' List.mem_cons_self hpage)), ih]
      refine if_congr ?_ rfl rfl
      simp [hpage]

/-- `freepageref` frees the entry, unless an earlier root has marked entries and no page. -/
theorem Rep.freepageref_eq (h : s.Rep us loose) (hr : r < numPagerefpages)
    (h0 : (s.kheaproots r).page ≠ 0) (hk : k < npagerefsPerPage)
    (hin : (s.kheaproots r).Inuse k) (hp : p = (s.kheaproots r).page + k * pagerefSize) :
    s.freepageref p =
      if ∃ r' < r, (s.kheaproots r').page = 0 ∧ (s.kheaproots r').numinuse ≠ 0 then
        .error (.kassert "root->numinuse == 0")
      else .ok (s.setRoot r ((s.kheaproots r).unmark k)) := by
  obtain ⟨pre, post, hrs⟩ := List.append_of_mem (List.mem_range.mpr hr)
  have hpre : ∀ r', r' ∈ pre ↔ r' < r := by
    intro r'
    refine ⟨fun hm => ?_, mem_of_range_eq hrs⟩
    have hsorted : (pre ++ r :: post).Pairwise (· < ·) := hrs ▸ List.pairwise_lt_range
    exact (List.pairwise_append.mp hsorted).2.2 r' hm r List.mem_cons_self
  have h1 : npagerefsPerPage = 256 := rfl
  unfold Kheap.freepageref
  rw [hrs, freepagerefLoop_eq post h0 hk (h.counted r hr) hin hp pre]
  · simp only [hpre]
  · intro r' hm h0'
    have hr' : r' < numPagerefpages := ((hpre r').mp hm).trans hr
    have hap := h.root_apart hr' hr h0' h0 ((hpre r').mp hm).ne
    obtain ⟨-, hal, -, hlt⟩ := h.run _ (h.root_mem hr h0)
    obtain ⟨-, hal', -, hlt'⟩ := h.run _ (h.root_mem hr' h0')
    unfold pagerefSize at hp
    unfold Apart at hap
    unfold pageSize at *
    dsimp only at hal hal' hlt hlt'
    exact le_ptrDiff (by omega) (by unfold pageSize; omega) (by omega) (by omega)
      (by unfold pageSize; omega)

end Kheap

end OS161
