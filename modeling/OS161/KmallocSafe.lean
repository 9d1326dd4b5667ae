import OS161.KmallocCalls

/-!
# Kernel heap blocks never overlap

`heap_blocks_sound` : in every state that a sequence of calls of `kmalloc` and `kfree` reaches,
with any answers of `alloc_kpages` and any writes of the owners to their blocks, the heap is
sound, and if `alloc_kpages` grants the pages of pagerefs, every live block can be freed.

`alloc_kpages` of `vm.c` grants every page it returns for (`allocKpages_ne_zero`). An answer `0`
matters to `kfree` only : `allocpageref` leaves the entry marked, and 256 such answers fill a root
that has no page (`Kheap.Stuck`). `Kheap.PagerefsGranted` excludes the last of them.
-/

namespace OS161

open Function

namespace Kheap

variable {s s' : Kheap} {us : List Subpage} {u : Subpage} {b sz : ℕ} {c : ℕ × ℕ} {mem : ℕ → ℕ}
  {tr : List KheapAct}

/-! ## Freeing -/

/-- Entries of some root without a page are marked, and there are pagerefs behind it. -/
def Stuck (s : Kheap) : Prop :=
  ∃ r < numPagerefpages, (s.kheaproots r).page ≠ 0 ∧
    ∃ r' < r, (s.kheaproots r').page = 0 ∧ (s.kheaproots r').numinuse ≠ 0

/-- The roots after a pageref was freed. -/
def Unmarked (s s' : Kheap) : Prop :=
  s'.kheaproots = s.kheaproots ∨ ∃ r, (s.kheaproots r).page ≠ 0 ∧ ∃ k,
    s'.kheaproots = update s.kheaproots r ((s.kheaproots r).unmark k)

/-- What a call of `kfree` leaves. -/
structure Freed (s : Kheap) (b : ℕ) (s' : Kheap) : Prop where
  inv : s'.Inv
  live : s'.live = s.live.filter fun c => c.1 ≠ b
  runs : s'.runs = if ∃ c ∈ s'.live, pageFrame c.1 = pageFrame b then s.runs
    else s.runs.filter fun r => r.1 ≠ pageFrame b
  roots : s.Unmarked s'

/-- A block that shares its page is freed. -/
theorem Rep.kfree_small (h : s.Rep us []) (hcov : ∀ v ∈ us, ∃ c ∈ s.live, v.IsBlock c.1)
    (hu : u ∈ us) (hblock : u.IsBlock b) (hb : (b, sz) ∈ s.live)
    (hsz : sz < largestSubpageSize) :
    (∃ s', s.exec (.kfree b) = .ok s' ∧ s.Freed b s') ∨
      s.exec (.kfree b) = .error (.kassert "root->numinuse == 0") ∧ s.Stuck := by
  have hw := h.wf u hu
  have hnot : b ∉ u.free := fun hm => (h.free u hu b hblock).mp hm (b, sz) hb rfl
  have hb0 : b ≠ 0 := by
    obtain ⟨hlo, -⟩ := hblock.lt hw
    obtain ⟨h0, -⟩ := h.run _ (h.page_mem hu)
    omega
  have hgive := h.give hu hblock hb hsz
  set s₁ : Kheap := { s with mem := s.givenMem u b, live := s.live.filter fun c => c.1 ≠ b }
    with hs₁
  set u' : Subpage := { u with free := b :: u.free } with hu'
  have humem : u' ∈ us.map (withFree u.pr (b :: u.free)) :=
    List.mem_map.mpr ⟨u, hu, withFree_self⟩
  have hfull := hgive.full_iff humem
  have hpage : pageFrame b = u.page := pageFrame_block hblock hw
  have hcov' : ∀ v ∈ us.map (withFree u.pr (b :: u.free)), v.pr ≠ u.pr →
      ∃ c ∈ s₁.live, v.IsBlock c.1 := by
    intro v' hv' hne
    obtain ⟨v, hv, rfl⟩ := List.mem_map.mp hv'
    rw [(withFree_eq v).1] at hne
    obtain ⟨c, hc, hcb⟩ := hcov v hv
    refine ⟨c, mem_filter_ne.mpr ⟨hc, fun he => hne ?_⟩, isBlock_withFree.mpr hcb⟩
    rw [he] at hcb
    exact congrArg Subpage.pr (h.block_inj hv hu hcb hblock)
  have hexec : s.exec (.kfree b) = if u.free.length + 1 = u.count then do
      let s₂ ← s₁.removeLists u.pr u.blktype
      let s₃ ← s₂.freepageref u.pr
      .ok (s₃.freeKpages u.page) else .ok s₁ := by
    have := h.subpageKfree_eq hu hblock hnot (s.live.filter fun c => c.1 ≠ b)
    rw [exec, kfree, if_neg hb0, this]
    split_ifs
    · cases s₁.removeLists u.pr u.blktype with
      | error e => rfl
      | ok s₂ =>
        rw [ok_bind, ok_bind]
        cases s₂.freepageref u.pr <;> rfl
    · rfl
  rw [hexec]
  by_cases hcount : u.free.length + 1 = u.count
  · have hnone := hfull.mp hcount
    obtain ⟨s₂, he₂, hrep₂, hroots, hlive, hruns⟩ := hgive.removePage humem fun c hc hcb =>
      hnone ⟨c, hc, pageFrame_block hcb (hgive.wf u' humem)⟩
    obtain ⟨r, hr, k, hk, h0, hin, hpr⟩ := h.pageref u hu
    have hr' : s₂.kheaproots r = s.kheaproots r := by rw [hroots]
    have hfree := hrep₂.freepageref_eq hr (hr' ▸ h0) hk (hr' ▸ hin) (hr'.symm ▸ hpr)
    rw [show s₁.removeLists u.pr u.blktype = .ok s₂ from he₂, ok_bind, hfree]
    split_ifs with hstuck
    · refine .inr ⟨rfl, r, hr, h0, ?_⟩
      rw [hroots] at hstuck
      exact hstuck
    · refine .inl ⟨_, rfl, ⟨_, (hrep₂.unmark hr hk (hr' ▸ hin) ?_).release, ?_⟩,
        hlive, ?_, .inr ⟨r, h0, k, ?_⟩⟩
      · intro v hv heq
        rw [hr', ← hpr] at heq
        exact absurd heq (by simpa using (List.mem_filter.mp hv).2)
      · intro v hv
        obtain ⟨hv, hne⟩ := List.mem_filter.mp hv
        obtain ⟨c, hc, hcb⟩ := hcov' v hv (by simpa using hne)
        exact ⟨c, hlive.symm ▸ hc, hcb⟩
      · rw [if_neg]
        · rw [hpage]
          exact congrArg (List.filter _) hruns
        · rintro ⟨c, hc, hcp⟩
          exact hnone ⟨c, hlive ▸ hc, hcp.trans hpage⟩
      · rw [← hroots]
        rfl
  · rw [if_neg hcount]
    obtain ⟨c, hc, hcp⟩ := not_not.mp fun hnone => hcount (hfull.mpr hnone)
    refine .inl ⟨s₁, rfl, ⟨_, hgive, ?_⟩, rfl, ?_, .inl rfl⟩
    · intro v hv
      by_cases hne : v.pr = u.pr
      · obtain rfl := hgive.pr_inj hv humem hne
        exact ⟨c, hc, hgive.isBlock_of_page humem hc hcp⟩
      · exact hcov' v hv hne
    · rw [if_pos ⟨c, hc, hcp.trans hpage.symm⟩]

/-- A block with pages of its own is freed. -/
theorem Rep.kfree_large (h : s.Rep us []) (hcov : ∀ v ∈ us, ∃ c ∈ s.live, v.IsBlock c.1)
    (hb : (b, sz) ∈ s.live) (hsz : largestSubpageSize ≤ sz) :
    ∃ s', s.exec (.kfree b) = .ok s' ∧ s.Freed b s' := by
  obtain ⟨h0, hal, hn, -⟩ := h.large_run hb hsz
  have hpage : pageFrame b = b := by
    unfold pageFrame
    unfold pageSize at hal
    omega
  have hnew := (h.freeLarge hb hsz).release
  have hfind : findAlong .hang (nextAll { s with live := s.live.filter fun c => c.1 ≠ b })
    (holds { s with live := s.live.filter fun c => c.1 ≠ b } b) (totalPagerefs + 1) s.allbase =
      .ok none := h.findAlong_large hb hsz
  refine ⟨_, ?_, ⟨us, hnew, ?_⟩, rfl, ?_, .inl rfl⟩
  · rw [exec, kfree, if_neg h0, subpageKfree, hfind, ok_bind, ok_bind]
    dsimp only
    rw [if_neg (by simp), kassert_pos hal]
    rfl
  · intro v hv
    obtain ⟨c, hc, hcb⟩ := hcov v hv
    refine ⟨c, mem_filter_ne.mpr ⟨hc, fun he => ?_⟩, hcb⟩
    exact absurd (h.small_of_block hv hb (he ▸ hcb)) (Nat.not_lt.mpr hsz)
  · rw [if_neg, hpage]
    · rfl
    · rintro ⟨c, hc, hcp⟩
      -- Another pointer into the run is not live.
      have hout := (h.freeLarge hb hsz).live_outside hc
      unfold pageFrame at hcp
      unfold pageSize at hout hal
      dsimp only at hout hn hal
      omega

theorem Inv.kfree (h : s.Inv) (hc : c ∈ s.live) :
    (∃ s', s.exec (.kfree c.1) = .ok s' ∧ s.Freed c.1 s') ∨
      s.exec (.kfree c.1) = .error (.kassert "root->numinuse == 0") ∧ s.Stuck := by
  obtain ⟨us, hrep, hcov⟩ := h
  by_cases hsz : c.2 < largestSubpageSize
  · obtain ⟨u, hu, hblock, -⟩ := hrep.small c hc hsz
    exact hrep.kfree_small hcov hu hblock hc hsz
  · exact .inl (hrep.kfree_large hcov hc (Nat.not_lt.mp hsz))

/-! ## What is sound -/

theorem Rep.freeListOk (h : s.Rep us []) (hu : u ∈ us) : s.FreeListOk u.pr := by
  have hw := h.wf u hu
  have hin := h.inMem u hu
  have hinv : (u.free.head?.elim invalidOffset fun b => b - u.page) = invalidOffset ↔
      u.free.length = 0 := by
    cases hf : u.free with
    | nil => exact ⟨fun _ => rfl, fun _ => rfl⟩
    | cons c fl =>
      obtain ⟨-, -, -, hoff⟩ := (hw.block c (hf ▸ List.mem_cons_self)).lt hw
      refine ⟨fun he => ?_, nofun⟩
      unfold pageSize at hoff
      unfold invalidOffset at he
      rw [List.head?_cons, Option.elim_some] at he
      omega
  refine ⟨?_, ?_, ?_, ?_⟩
  · rw [Subpage.prBlocktype_eq hin hw]
    exact hw.blktype
  · rw [Subpage.prPageaddr_eq hin hw]
    exact h.page_mem hu
  · rw [Subpage.freelistOffset_eq hin hw, Subpage.nfree_eq hin hw]
    exact hinv
  · refine ⟨u.free, ?_, hw.nodup, Subpage.nfree_eq hin hw, fun b => ?_⟩
    · rw [Subpage.freelistOffset_eq hin hw, Subpage.prPageaddr_eq hin hw]
      have hlist := hin.list
      cases hf : u.free with
      | nil => exact if_pos rfl
      | cons c fl =>
        obtain ⟨hlo, -⟩ := (hw.block c (hf ▸ List.mem_cons_self)).lt hw
        rw [hf] at hinv hlist
        rw [if_neg (hinv.not.mpr nofun), List.head?_cons, Option.elim_some,
          Nat.add_sub_of_le hlo]
        exact hlist
    · rw [Subpage.prPageaddr_eq hin hw, Subpage.prBlocktype_eq hin hw]
      exact ⟨fun hb => ⟨hw.block b hb, (h.free u hu b (hw.block b hb)).mp hb⟩,
        fun hb => (h.free u hu b hb.1).mpr hb.2⟩

theorem Rep.within_page (h : s.Rep us []) (hu : u ∈ us) (hblock : u.IsBlock c.1)
    (hsize : blockBytes c.2 = u.size) : Within c (u.page, 1) := by
  obtain ⟨hlo, hhi⟩ := hblock.bounds (h.wf u hu).blktype
  refine ⟨hlo, ?_⟩
  omega

theorem within_large (hsz : largestSubpageSize ≤ c.2) :
    Within c (c.1, npages c.2) := by
  refine ⟨le_rfl, ?_⟩
  rw [blockBytes, if_pos hsz]

/-- Two live blocks have no byte in common. -/
theorem Rep.live_apart (h : s.Rep us []) {d : ℕ × ℕ} (hc : c ∈ s.live) (hd : d ∈ s.live)
    (hne : c.1 ≠ d.1) : Apart c.1 (blockBytes c.2) d.1 (blockBytes d.2) := by
  have hmixed : ∀ c ∈ s.live, ∀ d ∈ s.live, c.2 < largestSubpageSize →
      largestSubpageSize ≤ d.2 → Apart c.1 (blockBytes c.2) d.1 (blockBytes d.2) := by
    intro c hc d hd hcs hdl
    obtain ⟨u, hu, hblock, hsize⟩ := h.small c hc hcs
    have hap := h.page_apart_large hu hd hdl
    have hbounds := hblock.bounds (h.wf u hu).blktype
    rw [hsize, blockBytes, if_pos hdl]
    unfold Apart at hap ⊢
    omega
  by_cases hcs : c.2 < largestSubpageSize
  · by_cases hds : d.2 < largestSubpageSize
    · obtain ⟨u, hu, hcb, hcsize⟩ := h.small c hc hcs
      obtain ⟨v, hv, hdb, hdsize⟩ := h.small d hd hds
      rw [hcsize, hdsize]
      by_cases huv : u = v
      · subst huv
        exact hcb.apart hdb hne
      · have hap := h.page_apart hu hv huv
        have h1 := hcb.bounds (h.wf u hu).blktype
        have h2 := hdb.bounds (h.wf v hv).blktype
        unfold Apart at hap ⊢
        omega
    · exact hmixed c hc d hd hcs (Nat.not_lt.mp hds)
  · by_cases hds : d.2 < largestSubpageSize
    · exact (hmixed d hd c hc hds (Nat.not_lt.mp hcs)).symm
    · have hright := (List.pairwise_append.mp (List.pairwise_append.mp h.pairwise).2.1).2.1
      have := RunsApart.of_pairwise (List.pairwise_append.mp hright).1
        (List.mem_filter.mpr ⟨hc, decide_eq_true (Nat.not_lt.mp hcs)⟩)
        (List.mem_filter.mpr ⟨hd, decide_eq_true (Nat.not_lt.mp hds)⟩)
        fun he => hne (congrArg Prod.fst he)
      rw [blockBytes, if_pos (Nat.not_lt.mp hcs), blockBytes, if_pos (Nat.not_lt.mp hds)]
      exact this

theorem Inv.sound (h : s.Inv) : s.Sound := by
  have hinv := h
  obtain ⟨us, hrep, hcov⟩ := h
  refine ⟨fun c hc => le_blockBytes (hrep.bound c hc), ?_, ?_, ?_, ⟨us.map Subpage.pr,
    hrep.allbase, ?_, ?_⟩, ?_, ?_, ?_, ?_⟩
  · intro c hc
    by_cases hsz : c.2 < largestSubpageSize
    · obtain ⟨u, hu, hblock, hsize⟩ := hrep.small c hc hsz
      exact ⟨_, hrep.page_mem hu, hrep.within_page hu hblock hsize⟩
    · exact ⟨_, hrep.mem_runs.mpr (.inr (.inr (.inl ⟨c, hc, Nat.not_lt.mp hsz, rfl⟩))),
        within_large (Nat.not_lt.mp hsz)⟩
  · have hne : s.live.Pairwise fun c d => c.1 ≠ d.1 := List.pairwise_map.mp hrep.nodup
    exact hne.imp_of_mem fun hc hd hcd => hrep.live_apart hc hd hcd
  · intro c hc r hr h0
    by_cases hsz : c.2 < largestSubpageSize
    · obtain ⟨u, hu, hblock, hsize⟩ := hrep.small c hc hsz
      have hap := hrep.page_apart_root hu hr h0
      have hbounds := hblock.bounds (hrep.wf u hu).blktype
      unfold Apart at hap ⊢
      omega
    · have hap := hrep.root_apart_large hr h0 hc (Nat.not_lt.mp hsz)
      rw [blockBytes, if_pos (Nat.not_lt.mp hsz)]
      exact hap.symm
  · intro pr hpr
    obtain ⟨u, hu, rfl⟩ := List.mem_map.mp hpr
    exact hrep.freeListOk hu
  · intro c hc hsz
    obtain ⟨u, hu, hblock, hsize⟩ := hrep.small c hc hsz
    refine ⟨u.pr, List.mem_map.mpr ⟨u, hu, rfl⟩, ?_, ?_⟩
    · rw [Subpage.prPageaddr_eq (hrep.inMem u hu) (hrep.wf u hu)]
      exact hrep.within_page hu hblock hsize
    · rw [Subpage.prBlocktype_eq (hrep.inMem u hu) (hrep.wf u hu)]
      exact hsize
  · intro x hx
    rcases hrep.mem_runs.mp hx with ⟨u, hu, rfl⟩ | ⟨r, hr, -, rfl⟩ | ⟨c, hc, hsz, rfl⟩ | hloose
    · obtain ⟨c, hc, hblock⟩ := hcov u hu
      obtain ⟨v, hv, hvb, hsize⟩ := hrep.small c hc (hrep.small_of_block hu hc hblock)
      obtain rfl := hrep.block_inj hu hv hblock hvb
      exact .inr ⟨c, hc, hrep.within_page hu hblock hsize⟩
    · exact .inl ⟨r, hr, rfl⟩
    · exact .inr ⟨c, hc, within_large hsz⟩
    · exact absurd hloose List.not_mem_nil
  · intro c hc hsz s' he
    obtain ⟨u, hu, hblock, -⟩ := hrep.small c hc hsz
    have hnot : c.1 ∉ u.free := fun hm => (hrep.free u hu c.1 hblock).mp hm c hc rfl
    have heq := hrep.subpageKfree_eq hu hblock hnot s.live
    rw [show s.subpageKfree c.1 = _ from heq] at he
    split_ifs at he
    · obtain ⟨s₁, -, he⟩ := bind_eq_ok.mp he
      obtain ⟨s₂, -, he⟩ := bind_eq_ok.mp he
      cases he
    · cases he
  · intro c hc hsz
    rw [subpageKfree, hrep.findAlong_large hc hsz]
    rfl
  · intro act hal hnot
    cases act with
    | kmalloc sz va va' =>
      obtain ⟨s', he, -⟩ := hinv.kmalloc hal
      exact ⟨s', he⟩
    | kfree ptr => exact absurd rfl (hnot ptr)
    | write a w => exact ⟨_, rfl⟩

theorem step_inv {act : KheapAct} (h : s.Inv) (hstep : s.Step act s') : s'.Inv := by
  obtain ⟨hal, he⟩ := hstep
  cases act with
  | kmalloc sz va va' =>
    obtain ⟨s'', he', hinv, -⟩ := h.kmalloc hal
    obtain rfl := Except.ok.inj (he'.symm.trans he)
    exact hinv
  | kfree ptr =>
    obtain ⟨c, hc, rfl⟩ := hal
    rcases h.kfree hc with ⟨s'', he', hfreed⟩ | ⟨he', -⟩
    · obtain rfl := Except.ok.inj (he'.symm.trans he)
      exact hfreed.inv
    · exact absurd (he'.symm.trans he) nofun
  | write a w =>
    obtain ⟨us, hrep, hcov⟩ := h
    cases he
    exact ⟨us, hrep.write hal, hcov⟩

/-! ## Roots that have their pages -/

/-- Roots are not full without a page, and the roots with a page come first. -/
structure Rooted (s : Kheap) : Prop where
  full : ∀ r < numPagerefpages, (s.kheaproots r).page = 0 →
    (s.kheaproots r).numinuse < npagerefsPerPage
  first : ∀ r < numPagerefpages, (s.kheaproots r).page ≠ 0 → ∀ r' < r,
    (s.kheaproots r').page ≠ 0

theorem Rooted.not_stuck (h : s.Rooted) : ¬s.Stuck := by
  rintro ⟨r, hr, h0, r', hr', h0', -⟩
  exact h.first r hr h0 r' hr' h0'

theorem Rooted.congr (h : s.Rooted) (he : s'.kheaproots = s.kheaproots) : s'.Rooted :=
  ⟨he ▸ h.full, he ▸ h.first⟩

theorem Rooted.unmarked (h : s.Rooted) (hu : s.Unmarked s') : s'.Rooted := by
  rcases hu with he | ⟨r, h0, k, he⟩
  · exact h.congr he
  · have hpage : ∀ i, (s'.kheaproots i).page = (s.kheaproots i).page := by
      intro i
      rw [he]
      by_cases hi : i = r
      · rw [hi, update_self]
        rfl
      · rw [update_of_ne hi]
    refine ⟨fun i hi hi0 => ?_, fun i hi hi0 j hj => ?_⟩
    · rw [hpage] at hi0
      have hne : i ≠ r := fun hir => h0 (hir ▸ hi0)
      rw [he, update_of_ne hne]
      exact h.full i hi hi0
    · rw [hpage] at hi0 ⊢
      exact h.first i hi hi0 j hj

/-- A call of `allocpageref` that does not lose the last entry of a root. -/
theorem Rooted.allocpageref {va p : ℕ} (h : s.Rooted)
    (hc : ∀ r < numPagerefpages, (s.kheaproots r).Counted) (hal : va % pageSize = 0)
    (hgrant : (∃ r < numPagerefpages, (s.kheaproots r).page = 0 ∧
      npagerefsPerPage ≤ (s.kheaproots r).numinuse + 1) → va ≠ 0)
    (he : s.allocpageref va = .ok (p, s')) : s'.Rooted := by
  rcases allocpageref_cases hc hal with hn | ⟨r, hr, k, hk, hbefore, hn, hcase⟩
  · obtain ⟨-, rfl⟩ := Prod.mk.inj (Except.ok.inj (hn.symm.trans he))
    exact h
  · -- The roots before `r` are full, so they have a page.
    have hpages : ∀ r' < r, (s.kheaproots r').page ≠ 0 := by
      intro r' hr' h0
      have := h.full r' (hr'.trans hr) h0
      have := hbefore r' hr'
      omega
    have hroots : ∀ root : KheapRoot, (root.page = 0 → root.numinuse < npagerefsPerPage) →
        ((s.kheaproots r).page ≠ 0 → root.page ≠ 0) →
        ∀ s₁ : Kheap, s₁.kheaproots = update s.kheaproots r root → s₁.Rooted := by
      intro root hfull hkeep s₁ he₁
      refine ⟨fun i hi hi0 => ?_, fun i hi hi0 j hj => ?_⟩
      · by_cases hir : i = r
        · rw [he₁, hir, update_self] at hi0 ⊢
          exact hfull hi0
        · rw [he₁, update_of_ne hir] at hi0 ⊢
          exact h.full i hi hi0
      · by_cases hjr : j = r
        · have hir : i ≠ r := by omega
          rw [he₁, update_of_ne hir] at hi0
          rw [he₁, hjr, update_self]
          exact hkeep (hjr ▸ h.first i hi hi0 j hj)
        · rw [he₁, update_of_ne hjr]
          by_cases hir : i = r
          · exact hpages j (hir ▸ hj)
          · rw [he₁, update_of_ne hir] at hi0
            exact h.first i hi hi0 j hj
    rcases hcase with ⟨h0, he'⟩ | ⟨h0, hva, he'⟩ | ⟨h0, hva, he'⟩
    · obtain ⟨-, rfl⟩ := Prod.mk.inj (Except.ok.inj (he'.symm.trans he))
      exact hroots ((s.kheaproots r).mark k) (fun hp => (h0 hp).elim) (fun hp => hp) _ rfl
    · obtain ⟨-, rfl⟩ := Prod.mk.inj (Except.ok.inj (he'.symm.trans he))
      refine hroots _ (fun _ => ?_) (fun hp => (hp h0).elim) _ rfl
      have hroom : ¬npagerefsPerPage ≤ (s.kheaproots r).numinuse + 1 :=
        fun hle => hgrant ⟨r, hr, h0, hle⟩ hva
      exact Nat.not_le.mp hroom
    · obtain ⟨-, rfl⟩ := Prod.mk.inj (Except.ok.inj (he'.symm.trans he))
      refine hroots { (s.kheaproots r).mark k with page := va } (fun hp => (hva hp).elim)
        (fun hp => (hp h0).elim) _ ?_
      rw [allocKpages_of_ne hva]
      exact update_idem ..

theorem step_rooted {act : KheapAct} (hinv : s.Inv) (h : s.Rooted) (hg : s.PagerefsGranted act)
    (hstep : s.Step act s') : s'.Rooted := by
  obtain ⟨hal, he⟩ := hstep
  cases act with
  | kmalloc sz va va' =>
    obtain ⟨s'', he', -, hroots⟩ := hinv.kmalloc hal
    obtain rfl := Except.ok.inj (he'.symm.trans he)
    rcases hroots with heq | ⟨p, s₁, hp, heq⟩
    · exact h.congr heq
    · have hkeep : (s.allocKpages va 1).kheaproots = s.kheaproots := by
        unfold allocKpages
        split_ifs <;> rfl
      have hal' : va' % pageSize = 0 := by
        rcases hal.2.2 with rfl | hf
        · rfl
        · exact hf.1
      obtain ⟨us, hrep, -⟩ := hinv
      refine ((h.congr hkeep).allocpageref ?_ hal' ?_ hp).congr heq
      · rw [hkeep]
        exact hrep.counted
      · rw [hkeep]
        exact hg
  | kfree ptr =>
    obtain ⟨c, hc, rfl⟩ := hal
    rcases hinv.kfree hc with ⟨s'', he', hfreed⟩ | ⟨he', -⟩
    · obtain rfl := Except.ok.inj (he'.symm.trans he)
      exact h.unmarked hfreed.roots
    · exact absurd (he'.symm.trans he) nofun
  | write a w =>
    cases he
    exact h.congr rfl

theorem start_rooted (mem : ℕ → ℕ) : (start mem).Rooted :=
  ⟨fun _ _ _ => (by decide : 0 < npagerefsPerPage), fun _ _ h => (h rfl).elim⟩

theorem run_inv (hrun : Run Step (start mem) tr s) : s.Inv :=
  hrun.invariant (start_inv mem) fun _ _ _ => step_inv

theorem run_rooted
    (hrun : Run (guarded PagerefsGranted Step) (start mem) tr s) : s.Inv ∧ s.Rooted := by
  refine hrun.invariant (I := fun s => s.Inv ∧ s.Rooted) ⟨start_inv mem, start_rooted mem⟩ ?_
  rintro s act s' ⟨hinv, hrooted⟩ ⟨hstep, hg⟩
  exact ⟨step_inv hinv hstep, step_rooted hinv hrooted hg hstep⟩

theorem Inv.freeable (h : s.Inv) (hrooted : s.Rooted) : s.Freeable := by
  intro c hc
  rcases h.kfree hc with ⟨s', he, hfreed⟩ | ⟨-, hstuck⟩
  · exact ⟨s', he, hfreed.runs⟩
  · exact (hrooted.not_stuck hstuck).elim

/-- Where a live block is. -/
theorem Inv.block_bounds (h : s.Inv) (hc : c ∈ s.live) :
    c.1 ≠ 0 ∧ c.1 % 16 = 0 ∧ c.1 + c.2 ≤ 2 ^ 32 := by
  have hfits := h.sound.fits c hc
  obtain ⟨r, hr, hlo, hhi⟩ := h.sound.within c hc
  obtain ⟨us, hrep, -⟩ := h
  obtain ⟨h0, -, -, hbound⟩ := hrep.run r hr
  refine ⟨by omega, ?_, by omega⟩
  rcases Nat.lt_or_ge c.2 largestSubpageSize with hsz | hsz
  · obtain ⟨u, hu, ⟨k, -, hk⟩, -⟩ := hrep.small c hc hsz
    have hw := hrep.wf u hu
    have hpage : 16 ∣ u.page := .trans (by decide) (Nat.dvd_of_mod_eq_zero hw.aligned)
    have hsize : 16 ∣ u.size := (by decide : ∀ t < nsizes, 16 ∣ blockSize t) _ hw.blktype
    rw [hk]
    exact Nat.mod_eq_zero_of_dvd (Nat.dvd_add hpage (hsize.mul_left k))
  · obtain ⟨-, hal, -⟩ := hrep.large_run hc hsz
    unfold pageSize at hal
    omega

instance (s : Kheap) (act : KheapAct) : Decidable (s.PagerefsGranted act) :=
  match act with
  | .kmalloc _ _ _ => inferInstanceAs (Decidable (_ → _))
  | .kfree _ => inferInstanceAs (Decidable True)
  | .write _ _ => inferInstanceAs (Decidable True)

/-- The step of an allowed act whose pages are granted, for concrete runs. -/
def nextGranted (s : Kheap) (act : KheapAct) : Option (KheapAct × Kheap) :=
  if s.Allowed act ∧ s.PagerefsGranted act then (s.exec act).toOption.map fun s' => (act, s')
  else none

theorem guarded_of_nextGranted {act act' : KheapAct} (h : s.nextGranted act = some (act', s')) :
    guarded PagerefsGranted Step s act' s' := by
  obtain ⟨⟨hal, hg⟩, _, he, hr⟩ := ok_of_guard_map h
  cases hr
  exact ⟨⟨hal, he⟩, hg⟩

end Kheap

/-! ## Every sequence of calls -/

/-- In every state that calls of `kmalloc` and `kfree` reach, the heap is sound, and if no root
lost its last entry without a page, every live block can be freed. -/
theorem heap_blocks_sound {mem : ℕ → ℕ} {tr : List KheapAct} {s : Kheap}
    (hrun : Run Kheap.Step (.start mem) tr s) :
    s.Sound ∧ (Run (guarded Kheap.PagerefsGranted Kheap.Step) (.start mem) tr s → s.Freeable) := by
  refine ⟨(Kheap.run_inv hrun).sound, fun hguard => ?_⟩
  obtain ⟨hinv, hrooted⟩ := Kheap.run_rooted hguard
  exact hinv.freeable hrooted

/-- Two blocks of one page and a large one, of which one of the two is freed. -/
theorem heap_blocks_sound_small : ∃ tr s, Run Kheap.Step (.start fun _ => 0) tr s ∧
    s.live = [(0x80003000, 5000), (0x80001f00, 128)] ∧ s.Sound ∧ s.Freeable := by
  obtain ⟨tr, s, hguard, hd⟩ := Run.exists_of_execute Kheap.nextGranted Kheap.guarded_of_nextGranted
    (.start fun _ => 0) [.kmalloc 100 0x80001000 0x80002000, .kmalloc 128 0 0, .write 0x80001f00 7,
      .kmalloc 5000 0x80003000 0, .kfree 0x80001f80]
    (fun _ s => s.live = [(0x80003000, 5000), (0x80001f00, 128)]) (by decide +kernel)
  have hrun := hguard.of_guarded
  obtain ⟨hsound, hfree⟩ := heap_blocks_sound hrun
  exact ⟨tr, s, hrun, hd, hsound, hfree hguard⟩

end OS161
