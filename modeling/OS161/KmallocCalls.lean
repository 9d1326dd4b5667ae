import OS161.KmallocBlocks

/-!
# `kmalloc` and `kfree`

The searches through the lists find the page they should (`findAlong_hasFree`,
`findAlong_holds`), because a list has at most as many pagerefs as there are and a block is in
one page. With the rules for pages and blocks this gives what `kmalloc` does
(`Inv.kmalloc`), and `kfree` with a block of a page (`Rep.subpageKfree_eq`).
-/

namespace OS161

open Function

namespace Kheap

variable {s : Kheap} {us : List Subpage} {loose live' : List (ℕ × ℕ)} {u v : Subpage}
  {pr b sz va va' : ℕ} {fl : List ℕ}

/-! ## Searches -/

/-- There are at most as many pages of blocks as pagerefs. -/
theorem Rep.length_le (h : s.Rep us loose) : us.length ≤ totalPagerefs := by
  have hsub : us.map Subpage.pr ⊆ (List.range numPagerefpages).flatMap fun r =>
      (List.range npagerefsPerPage).map fun k => (s.kheaproots r).page + k * pagerefSize := by
    intro p hp
    obtain ⟨u, hu, rfl⟩ := List.mem_map.mp hp
    obtain ⟨r, hr, k, hk, -, -, he⟩ := h.pageref u hu
    exact List.mem_flatMap.mpr ⟨r, List.mem_range.mpr hr,
      List.mem_map.mpr ⟨k, List.mem_range.mpr hk, he.symm⟩⟩
  have hle := (h.allbase.nodup.subperm hsub).length_le
  simpa [totalPagerefs] using hle

theorem find?_eq_of_unique {α : Type} {l : List α} {f : α → Bool} {x : α} (hx : x ∈ l)
    (hf : f x = true) (huniq : ∀ y ∈ l, f y = true → y = x) : l.find? f = some x := by
  cases h : l.find? f with
  | none => exact absurd hf (List.find?_eq_none.mp h x hx)
  | some y => rw [huniq y (List.mem_of_find?_eq_some h) (List.find?_some h)]

/-- The search of `subpage_kmalloc` finds a page of the right size with a free block, or there
is none. -/
theorem Rep.findAlong_hasFree (h : s.Rep us loose) {t : ℕ} (ht : t < nsizes) :
    findAlong .hang s.nextSamesize (s.hasFree t) (totalPagerefs + 1) (s.sizebases t) = .ok none ∨
      ∃ u ∈ us, u.blktype = t ∧ u.free ≠ [] ∧ findAlong .hang s.nextSamesize (s.hasFree t)
        (totalPagerefs + 1) (s.sizebases t) = .ok (some u.pr) := by
  have hlen : ((us.filter fun u => u.blktype = t).map Subpage.pr).length < totalPagerefs + 1 := by
    rw [List.length_map]
    exact Nat.lt_succ_of_le ((List.length_filter_le _ _).trans h.length_le)
  have hlist : IsList s.nextSamesize (s.sizebases t)
    ((us.filter fun u => u.blktype = t).map Subpage.pr) := h.sizebases t ht
  rw [findAlong_eq (f := fun pr => decide (0 < s.nfree pr)) hlist hlen]
  · cases hf : ((us.filter fun u => u.blktype = t).map Subpage.pr).find?
        fun pr => decide (0 < s.nfree pr) with
    | none => exact .inl rfl
    | some pr =>
      obtain ⟨u, hu, rfl⟩ := List.mem_map.mp (List.mem_of_find?_eq_some hf)
      obtain ⟨hu, ht⟩ := List.mem_filter.mp hu
      have hpos : 0 < s.nfree u.pr := by simpa using List.find?_some hf
      rw [Subpage.nfree_eq (h.inMem u hu) (h.wf u hu)] at hpos
      exact .inr ⟨u, hu, by simpa using ht, List.ne_nil_of_length_pos hpos, rfl⟩
  · intro pr hpr
    obtain ⟨u, hu, rfl⟩ := List.mem_map.mp hpr
    obtain ⟨hu, ht⟩ := List.mem_filter.mp hu
    rw [hasFree, Subpage.prBlocktype_eq (h.inMem u hu) (h.wf u hu), kassert_pos (by simpa using ht)]
    rfl

/-- What the test of `subpage_kfree` says of a page. -/
theorem Rep.holds_eq (h : s.Rep us loose) (hu : u ∈ us) :
    s.holds b u.pr = .ok (decide (u.page ≤ b ∧ b < u.page + pageSize)) := by
  have hw := h.wf u hu
  have hbelow : word32 (u.page + pageSize) = u.page + pageSize := Nat.mod_eq_of_lt hw.below
  unfold holds
  rw [Subpage.prPageaddr_eq (h.inMem u hu) hw, Subpage.prBlocktype_eq (h.inMem u hu) hw,
    kassert_pos hw.blktype, ok_bind, hbelow]

/-- The search of `subpage_kfree` is over the pages. -/
theorem Rep.findAlong_holds (h : s.Rep us loose) : ∃ f : ℕ → Bool,
    (∀ u ∈ us, f u.pr = decide (u.page ≤ b ∧ b < u.page + pageSize)) ∧
    findAlong .hang s.nextAll (s.holds b) (totalPagerefs + 1) s.allbase =
      .ok ((us.map Subpage.pr).find? f) := by
  refine ⟨fun pr => (s.holds b pr).toOption.getD false, ?_, ?_⟩
  · intro u hu
    dsimp only
    rw [h.holds_eq hu]
    rfl
  · refine findAlong_eq h.allbase ?_ ?_
    · rw [List.length_map]
      exact Nat.lt_succ_of_le h.length_le
    · intro pr hpr
      obtain ⟨u, hu, rfl⟩ := List.mem_map.mp hpr
      rw [h.holds_eq hu]
      rfl

/-- A block is found in its page. -/
theorem Rep.findAlong_block (h : s.Rep us loose) (hu : u ∈ us) (hb : u.IsBlock b) :
    findAlong .hang s.nextAll (s.holds b) (totalPagerefs + 1) s.allbase = .ok (some u.pr) := by
  obtain ⟨f, hf, he⟩ := h.findAlong_holds (b := b)
  obtain ⟨hlo, hhi, -⟩ := hb.lt (h.wf u hu)
  rw [he, find?_eq_of_unique (List.mem_map.mpr ⟨u, hu, rfl⟩)]
  · rw [hf u hu]
    exact decide_eq_true ⟨hlo, hhi⟩
  · intro pr hpr hfpr
    obtain ⟨v, hv, rfl⟩ := List.mem_map.mp hpr
    rw [hf v hv, decide_eq_true_eq] at hfpr
    by_contra hne
    have hap := h.page_apart hv hu fun huv => hne (congrArg Subpage.pr huv)
    unfold Apart at hap
    omega

/-- A large block is found in no page. -/
theorem Rep.findAlong_large (h : s.Rep us loose) {b : ℕ × ℕ} (hb : b ∈ s.live)
    (hsz : largestSubpageSize ≤ b.2) :
    findAlong .hang s.nextAll (s.holds b.1) (totalPagerefs + 1) s.allbase = .ok none := by
  obtain ⟨f, hf, he⟩ := h.findAlong_holds (b := b.1)
  rw [he, List.find?_eq_none.mpr]
  intro pr hpr hfpr
  obtain ⟨u, hu, rfl⟩ := List.mem_map.mp hpr
  rw [hf u hu, decide_eq_true_eq] at hfpr
  have hap := h.page_apart_large hu hb hsz
  obtain ⟨-, -, hn, -⟩ := h.large_run hb hsz
  unfold Apart at hap
  unfold pageSize at hap hfpr
  omega

/-! ## Removing a page -/

/-- A word of a pageref is not at the place of another word of a pageref. -/
theorem Rep.pr_ne_link (h : s.Rep us loose) (hv : v ∈ us) (hu : u ∈ us) {i off : ℕ} (hi : i < 16)
    (hoff : off < 16) (hne : i ≠ off) : v.pr + i ≠ u.pr + off := by
  by_cases he : v.pr = u.pr
  · omega
  · exact h.pr_word_ne (h.pageref v hv) (h.pageref u hu) he hi hoff

/-- A pageref is taken out of a list of pages, and only links of this list change. -/
theorem Rep.unlink (h : s.Rep us loose) {us' : List Subpage} (hsub : us'.Sublist us) (hu : u ∈ us')
    {mem : ℕ → ℕ} {o base : ℕ}
    (hl : IsList (fun pr => mem (pr + o)) base (us'.map Subpage.pr)) :
    ∃ guy, linkTo Halt.hang (fun pr => mem (pr + o)) base u.pr (totalPagerefs + 1) none =
        .ok (some guy) ∧
      (∀ a, (∀ v ∈ us', a ≠ v.pr + o) → setLink mem o (mem (u.pr + o)) guy a = mem a) ∧
      IsList (fun pr => setLink mem o (mem (u.pr + o)) guy (pr + o))
        (guy.elim (mem (u.pr + o)) fun _ => base)
        ((us'.filter fun v => v.pr ≠ u.pr).map Subpage.pr) := by
  have hlen : (us'.map Subpage.pr).length < totalPagerefs + 1 := by
    rw [List.length_map]
    exact Nat.lt_succ_of_le (hsub.length_le.trans h.length_le)
  obtain ⟨guy, hguy, hin, hlist⟩ :=
    linkTo_unlink Halt.hang o hl (List.mem_map.mpr ⟨u, hu, rfl⟩) hlen
  refine ⟨guy, hguy, fun a ha => ?_, ?_⟩
  · cases guy with
    | none => rfl
    | some x =>
      obtain ⟨v, hv, rfl⟩ := List.mem_map.mp (hin x rfl)
      exact update_of_ne (ha v hv) ..
  · rw [List.filter_map] at hlist
    exact hlist

/-- A page is as it was when only links changed. -/
theorem Rep.inMem_unlink (h : s.Rep us loose) (hv : v ∈ us) {mem mem' : ℕ → ℕ} {off : ℕ}
    (hoff : off < 8) (hframe : ∀ a, (∀ u ∈ us, a ≠ u.pr + off) → mem' a = mem a)
    (hin : v.InMem mem) : v.InMem mem' := by
  refine hin.congr ?_ ?_ fun c hc => hframe c fun u hu => ?_
  · exact hframe _ fun u hu => h.pr_ne_link hv hu (by decide) (by omega) (by omega)
  · exact hframe _ fun u hu => h.pr_ne_link hv hu (by decide) (by omega) (by omega)
  · exact h.block_ne_pr hv (h.pageref u hu) ((h.wf v hv).block c hc) (by omega)

/-- `remove_lists`, from the two places it finds. -/
theorem removeLists_eq {blktype : ℕ} {guy guy' : Option ℕ} {mem₁ : ℕ → ℕ} (ht : blktype < nsizes)
    (hmem₁ : setLink s.mem 0 (s.mem pr) guy = mem₁)
    (hguy : linkTo Halt.hang (fun x => s.mem (x + 0)) (s.sizebases blktype) pr
      (totalPagerefs + 1) none = .ok (some guy))
    (hguy' : linkTo Halt.hang (fun x => mem₁ (x + 4)) s.allbase pr (totalPagerefs + 1) none =
      .ok (some guy')) :
    s.removeLists pr blktype = .ok { s with
      mem := setLink mem₁ 4 (mem₁ (pr + 4)) guy'
      allbase := guy'.elim (mem₁ (pr + 4)) fun _ => s.allbase
      sizebases := update s.sizebases blktype
        (guy.elim (s.mem pr) fun _ => s.sizebases blktype) } := by
  subst hmem₁
  unfold Kheap.removeLists
  rw [kassert_pos ht, ok_bind]
  refine (congrArg (· >>= _) hguy).trans ?_
  rw [ok_bind]
  cases guy with
  | none =>
    refine (congrArg (· >>= _) hguy').trans ?_
    cases guy' <;> rfl
  | some x =>
    refine (congrArg (· >>= _) hguy').trans ?_
    simp only [Option.elim_some, update_eq_self]
    cases guy' <;> rfl

/-- `remove_lists` takes the pageref out of both lists. -/
theorem Rep.removeLists (h : s.Rep us loose) (hu : u ∈ us) :
    ∃ mem' all' sizes', s.removeLists u.pr u.blktype =
        .ok { s with mem := mem', allbase := all', sizebases := sizes' } ∧
      ListsIn mem' all' sizes' (us.filter fun v => v.pr ≠ u.pr) := by
  have ht := (h.wf u hu).blktype
  obtain ⟨guy, hguy, hframe, hlist⟩ := h.unlink (o := 0) List.filter_sublist
    (List.mem_filter.mpr ⟨hu, by simp⟩) (h.sizebases u.blktype ht)
  set mem₁ := setLink s.mem 0 (s.mem (u.pr + 0)) guy with hmem₁
  have hframe₁ : ∀ a, (∀ v ∈ us, a ≠ v.pr + 0) → mem₁ a = s.mem a :=
    fun a ha => hframe a fun v hv => ha v (List.mem_filter.mp hv).1
  have hall : IsList (fun pr => mem₁ (pr + 4)) s.allbase (us.map Subpage.pr) := by
    refine h.allbase.congr fun x hx => ?_
    obtain ⟨v, hv, rfl⟩ := List.mem_map.mp hx
    exact hframe₁ _ fun u hu => h.pr_ne_link hv hu (by decide) (by decide) (by decide)
  obtain ⟨guy', hguy', hframe', hlist'⟩ := h.unlink (List.Sublist.refl us) hu hall
  refine ⟨_, _, _, removeLists_eq ht hmem₁.symm hguy hguy', hlist', fun t htn => ?_,
    fun v hv => h.wf v (List.mem_filter.mp hv).1, fun v hv => ?_⟩
  · rw [List.filter_comm]
    -- The second store is to no link of a list of one size.
    refine (show IsList mem₁ _ _ from ?_).congr fun x hx => ?_
    · by_cases htt : t = u.blktype
      · subst htt
        rw [update_self]
        exact hlist
      · rw [update_of_ne htt, List.filter_eq_self.mpr]
        · refine (h.sizebases t htn).congr fun x hx => hframe x fun v hv heq => htt ?_
          obtain ⟨v', hv', rfl⟩ := List.mem_map.mp hx
          obtain ⟨hv', ht'⟩ := List.mem_filter.mp hv'
          obtain ⟨hv, hvt⟩ := List.mem_filter.mp hv
          obtain rfl := h.pr_inj hv' hv heq
          exact (of_decide_eq_true ht').symm.trans (of_decide_eq_true hvt)
        · intro v hv
          obtain ⟨hv, ht'⟩ := List.mem_filter.mp hv
          refine decide_eq_true fun heq => htt ?_
          obtain rfl := h.pr_inj hv hu heq
          exact (of_decide_eq_true ht').symm
    · obtain ⟨v, hv, rfl⟩ := List.mem_map.mp hx
      have hv := (List.mem_filter.mp (List.mem_filter.mp hv).1).1
      exact hframe' _ fun u hu => h.pr_ne_link (i := 0) hv hu (by decide) (by decide) (by decide)
  · have hv := (List.mem_filter.mp hv).1
    exact h.inMem_unlink hv (by decide) hframe'
      (h.inMem_unlink hv (by decide) hframe₁ (h.inMem v hv))

/-- A page with no live block leaves the lists, and is loose. -/
theorem Rep.removePage (h : s.Rep us loose) (hu : u ∈ us)
    (hdead : ∀ b ∈ s.live, ¬u.IsBlock b.1) :
    ∃ s', s.removeLists u.pr u.blktype = .ok s' ∧
      s'.Rep (us.filter fun v => v.pr ≠ u.pr) ((u.page, 1) :: loose) ∧
      s'.kheaproots = s.kheaproots ∧ s'.live = s.live ∧ s'.runs = s.runs := by
  obtain ⟨mem', all', sizes', he, hlists⟩ := h.removeLists hu
  refine ⟨_, he, ⟨⟨h.apart, h.run, ?_, h.counted,
    fun v hv => h.pageref v (List.mem_filter.mp hv).1⟩, hlists, h.nodup, h.bound, ?_,
    fun v hv => h.free v (List.mem_filter.mp hv).1⟩, rfl, rfl, rfl⟩
  · have hperm := (perm_cons_filter h.allbase.nodup hu).map fun v => (v.page, 1)
    refine h.owners.trans ((hperm.append_right _).trans ?_)
    exact (perm_loose (us.filter fun v => v.pr ≠ u.pr) _ _ loose (u.page, 1)).symm
  · intro b hb hsz
    obtain ⟨v, hv, hblock, hsize⟩ := h.small b hb hsz
    refine ⟨v, List.mem_filter.mpr ⟨hv, decide_eq_true fun heq => ?_⟩, hblock, hsize⟩
    obtain rfl := h.pr_inj hv hu heq
    exact hdead b hb hblock

/-! ## `kmalloc` -/

/-- The heap between two calls : every page of blocks has a live one. -/
def Inv (s : Kheap) : Prop :=
  ∃ us, s.Rep us [] ∧ ∀ u ∈ us, ∃ c ∈ s.live, u.IsBlock c.1

theorem start_inv (mem : ℕ → ℕ) : (start mem).Inv :=
  ⟨[], start_rep mem, nofun⟩

theorem npages_pos (hsz : largestSubpageSize ≤ sz) (hb : sz + pageSize - 1 < 2 ^ 32) :
    0 < npages sz := by
  unfold npages word32
  unfold largestSubpageSize at hsz
  unfold pageSize at hb ⊢
  omega

/-- A block is taken from a page; all other pages have a live block already. -/
theorem Rep.doalloc (h : s.Rep us []) (hu : u ∈ us) (hf : u.free ≠ [])
    (hcov : ∀ v ∈ us, v.pr ≠ u.pr → ∃ c ∈ s.live, v.IsBlock c.1)
    (hsz : sz < largestSubpageSize) (hsize : blockBytes sz = u.size) :
    ∃ b s', s.doalloc u.pr = .ok (b, s') ∧ b ≠ 0 ∧ s'.kheaproots = s.kheaproots ∧
      { s' with live := (b, sz) :: s'.live }.Inv := by
  obtain ⟨b, fl, hbfl⟩ := List.exists_cons_of_ne_nil hf
  have hb0 : b ≠ 0 := (h.inMem u hu).list.ne_zero b (hbfl ▸ List.mem_cons_self)
  have hblock : u.IsBlock b := (h.wf u hu).block b (hbfl ▸ List.mem_cons_self)
  refine ⟨b, _, doalloc_eq (h.inMem u hu) (h.wf u hu) hbfl, hb0, rfl, _,
    h.take hu hbfl hsz hsize, ?_⟩
  intro v' hv'
  obtain ⟨v, hv, rfl⟩ := List.mem_map.mp hv'
  simp only [isBlock_withFree]
  by_cases he : v.pr = u.pr
  · obtain rfl := h.pr_inj hv hu he
    exact ⟨(b, sz), List.mem_cons_self, hblock⟩
  · obtain ⟨c, hc, hcb⟩ := hcov v hv he
    exact ⟨c, List.mem_cons_of_mem _ hc, hcb⟩

/-- `kmalloc` returns. The roots change only by a call of `allocpageref`. -/
theorem Inv.kmalloc (h : s.Inv) (hal : s.Allowed (.kmalloc sz va va')) :
    ∃ s', s.exec (.kmalloc sz va va') = .ok s' ∧ s'.Inv ∧ (s'.kheaproots = s.kheaproots ∨
      ∃ p s₁, (s.allocKpages va 1).allocpageref va' = .ok (p, s₁) ∧
        s'.kheaproots = s₁.kheaproots) := by
  obtain ⟨us, hrep, hcov⟩ := h
  obtain ⟨hbound, hva, hva'⟩ := hal
  have hfail : ∀ s₁ : Kheap, s₁.Inv → s.kmalloc sz va va' = .ok (0, s₁) →
      s.exec (.kmalloc sz va va') = .ok s₁ := by
    intro s₁ _ he
    rw [exec, he]
    rfl
  by_cases hlarge : largestSubpageSize ≤ sz
  · by_cases hva0 : va = 0
    · refine ⟨s, hfail s ⟨us, hrep, hcov⟩ ?_, ⟨us, hrep, hcov⟩, .inl rfl⟩
      rw [Kheap.kmalloc, if_pos hlarge, if_pos hva0]
    · have hfresh := hva.resolve_left hva0
      rw [pagesFor, if_pos hlarge] at hfresh
      have hnew := (hrep.alloc hva0 (npages_pos hlarge hbound) hfresh).large hlarge hbound
      have he : s.kmalloc sz va va' = .ok (va, s.allocKpages va (npages sz)) := by
        rw [Kheap.kmalloc, if_pos hlarge, if_neg hva0, kassert_pos hfresh.1]
        rfl
      rw [allocKpages_of_ne hva0] at he hnew
      refine ⟨_, ?_, ⟨us, hnew, fun u hu => ?_⟩, .inl ?_⟩
      rotate_left
      · obtain ⟨c, hc, hcb⟩ := hcov u hu
        exact ⟨c, List.mem_cons_of_mem _ hc, hcb⟩
      · rfl
      · rw [exec, he, ok_bind]
        dsimp only
        rw [if_neg hva0]
  · obtain ⟨t, ht, htype, hsize, -⟩ := blocktype_eq (Nat.not_le.mp hlarge)
    have hkm : s.kmalloc sz va va' = s.subpageKmalloc sz va va' := if_neg hlarge
    have hdone : ∀ b (s₁ : Kheap), b ≠ 0 → s.kmalloc sz va va' = .ok (b, s₁) →
        s.exec (.kmalloc sz va va') = .ok { s₁ with live := (b, sz) :: s₁.live } := by
      intro b s₁ hb he
      rw [exec, he, ok_bind]
      dsimp only
      rw [if_neg hb]
    rcases hrep.findAlong_hasFree ht with hnone | ⟨u, hu, hut, hfree, hsome⟩
    · by_cases hva0 : va = 0
      · refine ⟨s, hfail s ⟨us, hrep, hcov⟩ ?_, ⟨us, hrep, hcov⟩, .inl rfl⟩
        rw [hkm, subpageKmalloc, htype, ok_bind, hnone, ok_bind]
        exact if_pos hva0
      · have hfresh := hva.resolve_left hva0
        rw [pagesFor, if_neg hlarge] at hfresh
        have hloose := hrep.alloc hva0 Nat.one_pos hfresh
        have hva'' : va' = 0 ∨ FreshRun (s.allocKpages va 1).runs va' 1 := by
          rw [allocKpages_of_ne hva0]
          exact hva'
        obtain ⟨p, s₁, hp, hrep₁, -, -, -, hlive₁, hpref⟩ := hloose.allocpageref hva''
        have hlive : s₁.live = s.live := by
          rw [hlive₁, allocKpages_of_ne hva0]
        have hpath : s.kmalloc sz va va' = if p = 0 then .ok (0, s₁.freeKpages va)
            else s₁.newPage p va t >>= fun s => s.doalloc p := by
          rw [hkm, subpageKmalloc, htype, ok_bind, hnone, ok_bind]
          rw [if_neg hva0, kassert_pos hfresh.1, ok_bind, hp, ok_bind]
        by_cases hp0 : p = 0
        · have hinv : (s₁.freeKpages va).Inv := by
            refine ⟨us, hrep₁.release, fun u hu => ?_⟩
            obtain ⟨c, hc, hcb⟩ := hcov u hu
            exact ⟨c, (show (s₁.freeKpages va).live = s.live from hlive) ▸ hc, hcb⟩
          rw [if_pos hp0] at hpath
          exact ⟨_, hfail _ hinv hpath, hinv, .inr ⟨p, s₁, hp, rfl⟩⟩
        · obtain ⟨s₂, he₂, hrep₂, hroots₂, hlive₂⟩ :=
            hrep₁.addPage ht (hpref hp0).1 (hpref hp0).2
          have hcount := (count_bounds ht).1
          obtain ⟨b, s₃, he₃, hb0, hroots₃, hinv⟩ := hrep₂.doalloc List.mem_cons_self
            (fun hnil => by
              have := congrArg List.length hnil
              rw [length_blocksDown, List.length_nil] at this
              omega)
            (fun v hv hne => by
              obtain ⟨c, hc, hcb⟩ := hcov v ((List.mem_cons.mp hv).resolve_left
                fun heq => hne (congrArg Subpage.pr heq))
              exact ⟨c, (hlive₂.trans hlive) ▸ hc, hcb⟩) (Nat.not_le.mp hlarge) hsize.symm
          rw [if_neg hp0, he₂, ok_bind, he₃] at hpath
          exact ⟨_, hdone b s₃ hb0 hpath, hinv, .inr ⟨p, s₁, hp, hroots₃.trans hroots₂⟩⟩
    · obtain ⟨b, s₁, he, hb0, hroots, hinv⟩ := hrep.doalloc hu hfree (fun v hv _ => hcov v hv)
        (Nat.not_le.mp hlarge) (by rw [← hsize, ← hut]; rfl)
      have hpath : s.kmalloc sz va va' = .ok (b, s₁) := by
        rw [hkm, subpageKmalloc, htype, ok_bind, hsome, ok_bind]
        exact he
      exact ⟨_, hdone b s₁ hb0 hpath, hinv, .inl hroots⟩

/-! ## `kfree` -/

theorem pageFrame_block (hb : u.IsBlock b) (hw : u.WF) : pageFrame b = u.page := by
  obtain ⟨hlo, hhi, -⟩ := hb.lt hw
  have hal := hw.aligned
  unfold pageFrame
  unfold pageSize at hhi hal
  omega

/-- The live pointers into a page of blocks are its blocks. -/
theorem Rep.isBlock_of_page (h : s.Rep us loose) (hu : u ∈ us) {c : ℕ × ℕ} (hc : c ∈ s.live)
    (hp : pageFrame c.1 = u.page) : u.IsBlock c.1 := by
  by_cases hsz : c.2 < largestSubpageSize
  · obtain ⟨v, hv, hblock, -⟩ := h.small c hc hsz
    rw [pageFrame_block hblock (h.wf v hv)] at hp
    by_contra hne
    have hap := h.page_apart hv hu fun heq => hne (heq ▸ hblock)
    unfold Apart pageSize at hap
    omega
  · have hap := h.page_apart_large hu hc (Nat.not_lt.mp hsz)
    obtain ⟨-, hal, hn, -⟩ := h.large_run hc (Nat.not_lt.mp hsz)
    unfold Apart pageSize at hap
    unfold pageFrame at hp
    omega

/-- All blocks of a page are free exactly if their number is that of the blocks. -/
theorem Rep.full_iff (h : s.Rep us loose) (hu : u ∈ us) :
    u.free.length = u.count ↔ ¬∃ c ∈ s.live, pageFrame c.1 = u.page := by
  have hw := h.wf u hu
  constructor
  · rintro hfull ⟨c, hc, hp⟩
    have hblock := h.isBlock_of_page hu hc hp
    exact (h.free u hu c.1 hblock).mp (Subpage.mem_free_of_full hw hfull hblock) c hc rfl
  · intro hnone
    have hsub : blocksDown u.page u.size u.count ⊆ u.free := by
      intro b hb
      have hblock : u.IsBlock b := mem_blocksDown.mp hb
      refine (h.free u hu _ hblock).mpr fun c hc he => hnone ⟨c, hc, ?_⟩
      rw [he]
      exact pageFrame_block hblock hw
    have hle := ((nodup_blocksDown (blockSize_pos hw.blktype) _).subperm hsub).length_le
    rw [length_blocksDown] at hle
    exact Nat.le_antisymm (Subpage.length_free_le hw) hle

/-- `subpage_kfree` of a block puts it into the free list of its page, and gives back a page
that is free. -/
theorem Rep.subpageKfree_eq (h : s.Rep us loose) (hu : u ∈ us) (hblock : u.IsBlock b)
    (hnot : b ∉ u.free) (live' : List (ℕ × ℕ)) :
    { s with live := live' }.subpageKfree b =
      if u.free.length + 1 = u.count then do
        let s₁ ← { s with mem := s.givenMem u b, live := live' }.removeLists u.pr u.blktype
        let s₂ ← s₁.freepageref u.pr
        .ok (true, s₂.freeKpages u.page)
      else .ok (true, { s with mem := s.givenMem u b, live := live' }) := by
  have hw := h.wf u hu
  have hin := h.inMem u hu
  have hbounds := hblock.bounds hw.blktype
  have hpos : 0 < u.size := blockSize_pos hw.blktype
  have hoffset : word32 (b + 2 ^ 32 - u.page) = b - u.page := by
    have := hw.below
    unfold word32
    omega
  have hmod : (b - u.page) % blockSize u.blktype = 0 := by
    obtain ⟨k, -, rfl⟩ := hblock
    rw [Nat.add_sub_cancel_left]
    exact Nat.mul_mod_left ..
  have hfill : ∀ a, a < b ∨ b + u.size ≤ a → (s.fillDeadbeef b u.size).mem a = s.mem a := by
    intro a ha
    refine if_neg fun hin => ?_
    omega
  have hpr : ∀ i < 16, u.pr + i < b ∨ b + u.size ≤ u.pr + i := by
    intro i hi
    by_contra hin
    exact h.pr_ne_block hu (h.pageref u hu) hi (by omega) (by omega) rfl
  have hin' : u.InMem (s.fillDeadbeef b u.size).mem := by
    refine hin.congr (hfill _ (hpr 8 (by decide))) (hfill _ (hpr 12 (by decide))) fun c hc => ?_
    have hc' := hw.block c hc
    have hap := hblock.apart hc' fun he => hnot (he ▸ hc)
    refine hfill c ?_
    unfold Apart at hap
    omega
  have hpush := pushFree_eq (s := { s with live := live' }.fillDeadbeef b u.size) hin' hw hblock
    hnot (by rcases hpr 12 (by decide) with h | h <;> omega)
  have hlen : u.free.length + 1 ≤ u.count := by
    by_contra hgt
    have hfull : u.free.length = u.count := by
      have := Subpage.length_free_le hw
      omega
    exact hnot (Subpage.mem_free_of_full hw hfull hblock)
  have hcount : u.count ≤ 256 := (count_bounds hw.blktype).2
  have hnfree : nfree { s with mem := s.givenMem u b, live := live' } u.pr =
      u.free.length + 1 :=
    nfree_eq (o := b - u.page) store_mem_self (by omega)
  have hfind : findAlong .hang (nextAll { s with live := live' }) (holds { s with live := live' } b)
    (totalPagerefs + 1) s.allbase = .ok (some u.pr) := h.findAlong_block hu hblock
  have hpage : prPageaddr { s with live := live' } u.pr = u.page := Subpage.prPageaddr_eq hin hw
  have htype : prBlocktype { s with live := live' } u.pr = u.blktype :=
    Subpage.prBlocktype_eq hin hw
  unfold subpageKfree
  rw [hfind, ok_bind]
  dsimp only
  rw [hpage, htype, hoffset, if_neg (by omega)]
  refine Eq.trans (congrArg (· >>= _) hpush) ?_
  rw [ok_bind]
  refine Eq.trans (congrArg (· >>= _) (kassert_pos ?_ _)) ?_
  · exact hnfree ▸ hlen
  · exact if_congr (by rw [← hnfree]; rfl) rfl rfl

end Kheap

end OS161
