import OS161.KmallocPages

/-!
# Blocks of the kernel heap

What the heap does within a page. `Rep.remap` is the frame rule : a change of memory that
leaves the links between pagerefs alone, and of some free lists. `Rep.take` and `Rep.give`
are the allocation and the freeing of a block, `Rep.addPage` sets up a new page, and
`Rep.removePage` takes a page out of the lists.
-/

namespace OS161

open Function

namespace Kheap

variable {s : Kheap} {us : List Subpage} {loose : List (ℕ × ℕ)} {u : Subpage}
  {pr o n a w b sz : ℕ}

/-! ## Words of a pageref -/

theorem store_mem_self : (s.store a w).mem a = w :=
  update_self ..

theorem store_mem_of_ne {a' : ℕ} (h : a' ≠ a) : (s.store a w).mem a' = s.mem a' :=
  update_of_ne h ..

theorem store_store (w' : ℕ) : (s.store a w).store a w' = s.store a w' := by
  unfold store
  rw [update_idem]

theorem freelistOffset_eq (h : s.mem (pr + 12) = o * 2 ^ 16 + n) (hn : n < 2 ^ 16) :
    s.freelistOffset pr = o := by
  rw [freelistOffset, h]
  omega

theorem nfree_eq (h : s.mem (pr + 12) = o * 2 ^ 16 + n) (hn : n < 2 ^ 16) : s.nfree pr = n := by
  rw [nfree, h]
  omega

theorem setNfree_eq (h : s.mem (pr + 12) = o * 2 ^ 16 + n) (hn : n < 2 ^ 16) (v : ℕ) :
    s.setNfree pr v = s.store (pr + 12) (o * 2 ^ 16 + v % 2 ^ 16) := by
  rw [setNfree, freelistOffset_eq h hn]

theorem setFreelistOffset_eq (h : s.mem (pr + 12) = o * 2 ^ 16 + n) (hn : n < 2 ^ 16) (v : ℕ) :
    s.setFreelistOffset pr v = s.store (pr + 12) (v % 2 ^ 16 * 2 ^ 16 + n) := by
  rw [setFreelistOffset, nfree_eq h hn]

end Kheap

namespace Subpage

variable {s : Kheap} {u : Subpage} {b : ℕ}

theorem length_free_lt (h : u.WF) : u.free.length < 2 ^ 16 := by
  have := length_free_le h
  have hc : u.count ≤ 256 := (count_bounds h.blktype).2
  omega

theorem prPageaddr_eq (h : u.InMem s.mem) (hw : u.WF) : s.prPageaddr u.pr = u.page := by
  have hal := hw.aligned
  have ht := hw.blktype
  rw [Kheap.prPageaddr, h.pab]
  unfold pageFrame
  unfold pageSize at hal
  unfold nsizes at ht
  omega

theorem prBlocktype_eq (h : u.InMem s.mem) (hw : u.WF) : s.prBlocktype u.pr = u.blktype := by
  have hal := hw.aligned
  have ht := hw.blktype
  rw [Kheap.prBlocktype, h.pab]
  unfold pageOffset
  unfold pageSize at hal
  unfold nsizes at ht
  omega

theorem nfree_eq (h : u.InMem s.mem) (hw : u.WF) : s.nfree u.pr = u.free.length :=
  Kheap.nfree_eq h.word (length_free_lt hw)

theorem freelistOffset_eq (h : u.InMem s.mem) (hw : u.WF) : s.freelistOffset u.pr =
    u.free.head?.elim invalidOffset fun b => b - u.page :=
  Kheap.freelistOffset_eq h.word (length_free_lt hw)

end Subpage

theorem IsList.head_eq {next : ℕ → ℕ} {p : ℕ} {l : List ℕ} (h : IsList next p l) :
    p = l.head?.getD 0 := by
  cases l with
  | nil => exact h
  | cons x l => exact h.1

namespace Kheap

variable {s : Kheap} {us : List Subpage} {loose : List (ℕ × ℕ)} {u : Subpage} {pr o n a w b sz : ℕ}
  {fl : List ℕ} {mem' : ℕ → ℕ} {live' live : List (ℕ × ℕ)} {v : Subpage} {page size va t : ℕ}

/-! ## Allocating and freeing a block -/

/-- The first block of the free list is taken. -/
theorem doalloc_eq (h : u.InMem s.mem) (hw : u.WF) (hf : u.free = b :: fl) :
    s.doalloc u.pr = .ok (b, s.store (u.pr + 12) { u with free := fl }.word) := by
  obtain ⟨hlo, hhi, hlt, hoff⟩ := (hw.block b (hf ▸ List.mem_cons_self)).lt hw
  have hword : s.mem (u.pr + 12) = (b - u.page) * 2 ^ 16 + (fl.length + 1) := by
    rw [h.word, Subpage.word, hf]
    rfl
  have hlen := Subpage.length_free_lt hw
  rw [hf, List.length_cons] at hlen
  have hlist := h.list
  rw [hf] at hlist
  have hnext : s.mem b = fl.head?.getD 0 := hlist.2.2.head_eq
  have hret : word32 (u.page + (b - u.page)) = b := by
    unfold word32
    omega
  have hset : s.setNfree u.pr (fl.length + 1 + 2 ^ 16 - 1) =
      s.store (u.pr + 12) ((b - u.page) * 2 ^ 16 + fl.length) := by
    have hmod : (fl.length + 1 + 2 ^ 16 - 1) % 2 ^ 16 = fl.length := by omega
    rw [setNfree_eq hword hlen, hmod]
  have hmem : (s.store (u.pr + 12) ((b - u.page) * 2 ^ 16 + fl.length)).mem (u.pr + 12) =
    (b - u.page) * 2 ^ 16 + fl.length := store_mem_self
  have hlen' : fl.length < 2 ^ 16 := by omega
  unfold doalloc
  rw [freelistOffset_eq hword hlen, nfree_eq hword hlen, Subpage.prPageaddr_eq h hw,
    kassert_pos hoff, ok_bind]
  dsimp only
  rw [hret, hnext, hset, nfree_eq hmem hlen', setFreelistOffset_eq hmem hlen',
    setFreelistOffset_eq hmem hlen', store_store, store_store]
  cases hfl : fl with
  | nil =>
    rfl
  | cons c fl' =>
    have hc : u.IsBlock c := hw.block c (by rw [hf, hfl]; simp)
    obtain ⟨hlo', hhi', hlt', hoff'⟩ := hc.lt hw
    have hc0 : c ≠ 0 := by
      refine hlist.ne_zero c ?_
      rw [hfl]
      simp
    have hoffset : word32 ((c :: fl').head?.getD 0 + 2 ^ 32 - u.page) = c - u.page := by
      rw [List.head?_cons, Option.getD_some, word32]
      omega
    have hmod : (c - u.page) % 2 ^ 16 = c - u.page := by
      unfold pageSize at hoff'
      omega
    rw [if_pos (by simpa using hc0), kassert_pos (by simp), ok_bind,
      kassert_pos (by rw [hoffset]; exact hoff'), ok_bind, hoffset, hmod]
    rfl

/-- The block is put at the front of the free list. -/
theorem pushFree_eq (h : u.InMem s.mem) (hw : u.WF) (hb : u.IsBlock b) (hnot : b ∉ u.free)
    (hpr : u.pr + 12 ≠ b) : s.pushFree u.pr (b - u.page) = .ok
      ((s.store b (u.free.head?.getD 0)).store (u.pr + 12)
        { u with free := b :: u.free }.word) := by
  obtain ⟨hlo, hhi, hlt, hoff⟩ := hb.lt hw
  have hlen := Subpage.length_free_lt hw
  have hfla : word32 (u.page + (b - u.page)) = b := by
    unfold word32
    omega
  have hstored : ∀ v, (s.store b v).mem (u.pr + 12) =
      (u.free.head?.elim invalidOffset fun b => b - u.page) * 2 ^ 16 + u.free.length :=
    fun v => (store_mem_of_ne hpr).trans h.word
  have hfinish : ∀ v, ((s.store b v).setFreelistOffset u.pr (b - u.page)).setNfree u.pr
      (((s.store b v).setFreelistOffset u.pr (b - u.page)).nfree u.pr + 1) =
      (s.store b v).store (u.pr + 12) { u with free := b :: u.free }.word := by
    intro v
    have hcount : u.free.length + 1 < 2 ^ 16 := by
      have := Subpage.length_free_le hw
      have hc : u.count ≤ 256 := (count_bounds hw.blktype).2
      omega
    have hmod : (b - u.page) % 2 ^ 16 = b - u.page := by
      unfold pageSize at hoff
      omega
    rw [setFreelistOffset_eq (hstored v) hlen, hmod, nfree_eq store_mem_self hlen,
      setNfree_eq store_mem_self hlen, store_store, Nat.mod_eq_of_lt hcount]
    rfl
  unfold pushFree
  rw [Subpage.freelistOffset_eq h hw, Subpage.prPageaddr_eq h hw]
  dsimp only
  rw [hfla]
  cases hfree : u.free with
  | nil =>
    have := hfinish 0
    rw [hfree] at this
    rw [List.head?_nil, Option.elim_none, if_pos rfl, ok_bind, this]
    rfl
  | cons c fl =>
    have hcmem : c ∈ u.free := hfree ▸ List.mem_cons_self
    obtain ⟨hlo', hhi', hlt', hoff'⟩ := (hw.block c hcmem).lt hw
    have hne : c - u.page ≠ invalidOffset := by
      unfold pageSize at hoff'
      unfold invalidOffset
      omega
    have hc : word32 (u.page + (c - u.page)) = c := by
      unfold word32
      omega
    have hbc : b ≠ c := fun he => hnot (he ▸ hcmem)
    have := hfinish c
    rw [hfree] at this
    rw [List.head?_cons, Option.elim_some, if_neg hne, hc, store_mem_self, kassert_pos hbc,
      ok_bind, ok_bind, this]
    rfl

/-- A change of memory and of free lists that leaves the links between pagerefs alone. -/
theorem Rep.remap (h : s.Rep us loose) {g : Subpage → Subpage}
    (hg : ∀ u, (g u).pr = u.pr ∧ (g u).page = u.page ∧ (g u).blktype = u.blktype)
    (hlink : ∀ u ∈ us, mem' u.pr = s.mem u.pr ∧ mem' (u.pr + 4) = s.mem (u.pr + 4))
    (hmem : ∀ u ∈ us, (g u).WF ∧ (g u).InMem mem')
    (hlarge : live'.filter (fun b => largestSubpageSize ≤ b.2) =
      s.live.filter fun b => largestSubpageSize ≤ b.2)
    (hblocks : BlocksOf live' (us.map g)) :
    { s with mem := mem', live := live' }.Rep (us.map g) loose := by
  have hprs : ∀ l : List Subpage, (l.map g).map Subpage.pr = l.map Subpage.pr := by
    intro l
    rw [List.map_map]
    exact List.map_congr_left fun u _ => (hg u).1
  have hpages : pageRuns (us.map g) = pageRuns us := by
    unfold pageRuns
    rw [List.map_map]
    refine List.map_congr_left fun u _ => ?_
    rw [Function.comp_apply, (hg u).2.1]
  have hlarge' : largeRuns { s with mem := mem', live := live' } = s.largeRuns := by
    unfold largeRuns
    rw [hlarge]
  refine ⟨⟨h.apart, h.run, ?_, h.counted, ?_⟩, ⟨?_, ?_, ?_, ?_⟩, hblocks⟩
  · rw [hpages, hlarge']
    exact h.owners
  · intro v hv
    obtain ⟨u, hu, rfl⟩ := List.mem_map.mp hv
    rw [(hg u).1]
    exact h.pageref u hu
  · rw [hprs]
    refine h.allbase.congr fun x hx => ?_
    obtain ⟨u, hu, rfl⟩ := List.mem_map.mp hx
    exact (hlink u hu).2
  · intro t ht
    rw [List.filter_map, hprs]
    have hfilter : us.filter ((fun u : Subpage => decide (u.blktype = t)) ∘ g) =
        us.filter fun u => u.blktype = t :=
      List.filter_congr fun u _ => by rw [Function.comp_apply, (hg u).2.2]
    rw [hfilter]
    refine (h.sizebases t ht).congr fun x hx => ?_
    obtain ⟨u, hu, rfl⟩ := List.mem_map.mp hx
    exact (hlink u (List.mem_filter.mp hu).1).1
  · intro v hv
    obtain ⟨u, hu, rfl⟩ := List.mem_map.mp hv
    exact (hmem u hu).1
  · intro v hv
    obtain ⟨u, hu, rfl⟩ := List.mem_map.mp hv
    exact (hmem u hu).2

/-- The pages, with another free list for the page of `pr`. -/
def withFree (pr : ℕ) (fl : List ℕ) (v : Subpage) : Subpage :=
  if v.pr = pr then { v with free := fl } else v

theorem withFree_self : withFree u.pr fl u = { u with free := fl } :=
  if_pos rfl

theorem withFree_of_ne (h : v.pr ≠ u.pr) : withFree u.pr fl v = v :=
  if_neg h

theorem withFree_eq (v : Subpage) : (withFree pr fl v).pr = v.pr ∧
    (withFree pr fl v).page = v.page ∧ (withFree pr fl v).blktype = v.blktype := by
  unfold withFree
  split_ifs <;> exact ⟨rfl, rfl, rfl⟩

theorem isBlock_withFree : (withFree pr fl v).IsBlock b ↔ v.IsBlock b := by
  unfold withFree
  split_ifs <;> rfl

theorem size_withFree : (withFree pr fl v).size = v.size := by
  unfold withFree
  split_ifs <;> rfl

/-- The free list of one page changes, with the word that describes it and memory within the
page. -/
theorem Rep.setFree (h : s.Rep us loose) (hu : u ∈ us)
    (hmem : ∀ a, a ≠ u.pr + 12 → (a < u.page ∨ u.page + pageSize ≤ a) → mem' a = s.mem a)
    (hwf : { u with free := fl }.WF) (hword : mem' (u.pr + 12) = { u with free := fl }.word)
    (hlist : IsList mem' (fl.head?.getD 0) fl)
    (hlarge : live'.filter (fun b => largestSubpageSize ≤ b.2) =
      s.live.filter fun b => largestSubpageSize ≤ b.2)
    (hnodup : (live'.map Prod.fst).Nodup) (hbound : ∀ b ∈ live', b.2 + pageSize - 1 < 2 ^ 32)
    (hsmall : ∀ b ∈ live', b.2 < largestSubpageSize →
      ∃ u ∈ us, u.IsBlock b.1 ∧ blockBytes b.2 = u.size)
    (hself : ∀ b, u.IsBlock b → (b ∈ fl ↔ ∀ c ∈ live', c.1 ≠ b))
    (hother : ∀ b, ¬u.IsBlock b → ((∀ c ∈ live', c.1 ≠ b) ↔ ∀ c ∈ s.live, c.1 ≠ b)) :
    { s with mem := mem', live := live' }.Rep (us.map (withFree u.pr fl)) loose := by
  have hpr : ∀ v ∈ us, ∀ i < 16, v.pr + i ≠ u.pr + 12 → mem' (v.pr + i) = s.mem (v.pr + i) := by
    intro v hv i hi hne
    refine hmem _ hne ?_
    by_contra hin
    exact h.pr_ne_block hu (h.pageref v hv) hi (by omega) (by omega) rfl
  refine h.remap (fun v => withFree_eq v) ?_ ?_ hlarge ⟨hnodup, hbound, ?_, ?_⟩
  · intro v hv
    have hne : ∀ i, i < 16 → i ≠ 12 → v.pr + i ≠ u.pr + 12 := by
      intro i hi hne
      by_cases he : v.pr = u.pr
      · omega
      · exact h.pr_word_ne (h.pageref v hv) (h.pageref u hu) he hi (by decide)
    exact ⟨hpr v hv 0 (by decide) (hne 0 (by decide) (by decide)),
      hpr v hv 4 (by decide) (hne 4 (by decide) (by decide))⟩
  · intro v hv
    by_cases he : v.pr = u.pr
    · obtain rfl := h.pr_inj hv hu he
      rw [withFree_self]
      refine ⟨hwf, ?_, hword, hlist⟩
      exact (hpr v hv 8 (by decide) (by omega)).trans (h.inMem v hv).pab
    · rw [withFree_of_ne he]
      have hne : ∀ i < 16, v.pr + i ≠ u.pr + 12 := fun i hi =>
        h.pr_word_ne (h.pageref v hv) (h.pageref u hu) he hi (by decide)
      refine ⟨h.wf v hv, (h.inMem v hv).congr (hpr v hv 8 (by decide) (hne 8 (by decide)))
        (hpr v hv 12 (by decide) (hne 12 (by decide))) fun c hc => ?_⟩
      have hblock := (h.wf v hv).block c hc
      obtain ⟨hlo, hhi, -⟩ := hblock.lt (h.wf v hv)
      have hap := h.page_apart hv hu fun heq => he (congrArg Subpage.pr heq)
      unfold Apart at hap
      exact hmem c (h.block_ne_pr hv (h.pageref u hu) hblock (by decide)) (by omega)
  · intro c hc hlt
    obtain ⟨v, hv, hblock, hsize⟩ := hsmall c hc hlt
    exact ⟨_, List.mem_map.mpr ⟨v, hv, rfl⟩, isBlock_withFree.mpr hblock,
      hsize.trans size_withFree.symm⟩
  · intro v' hv' c hblock
    obtain ⟨v, hv, rfl⟩ := List.mem_map.mp hv'
    rw [isBlock_withFree] at hblock
    by_cases he : v.pr = u.pr
    · obtain rfl := h.pr_inj hv hu he
      rw [withFree_self]
      exact hself c hblock
    · rw [withFree_of_ne he, hother c, h.free v hv c hblock]
      intro hin
      exact he (congrArg Subpage.pr (h.block_inj hv hu hblock hin))

theorem filter_large_cons (hsz : sz < largestSubpageSize) :
    ((b, sz) :: live).filter (fun b => largestSubpageSize ≤ b.2) =
      live.filter fun b => largestSubpageSize ≤ b.2 :=
  List.filter_cons_of_neg (by simpa using hsz)

/-- The first free block of a page becomes live. -/
theorem Rep.take (h : s.Rep us loose) (hu : u ∈ us) (hf : u.free = b :: fl)
    (hsz : sz < largestSubpageSize) (hsize : blockBytes sz = u.size) :
    { s.store (u.pr + 12) { u with free := fl }.word with live := (b, sz) :: s.live }.Rep
      (us.map (withFree u.pr fl)) loose := by
  have hw := h.wf u hu
  have hblock : u.IsBlock b := hw.block b (hf ▸ List.mem_cons_self)
  have hnd := hf ▸ hw.nodup
  have hlist := h.inMem u hu |>.list
  rw [hf] at hlist
  have hlive : ∀ c ∈ s.live, c.1 ≠ b := (h.free u hu b hblock).mp (hf ▸ List.mem_cons_self)
  refine h.setFree hu (fun a ha _ => update_of_ne ha ..)
    ⟨hw.blktype, hw.aligned, hw.below, fun c hc => hw.block c (hf ▸ List.mem_cons_of_mem _ hc),
      (List.nodup_cons.mp hnd).2⟩ (update_self ..) ?_ (filter_large_cons hsz) ?_ ?_ ?_
      ?_ ?_
  · rw [← hlist.2.2.head_eq]
    refine hlist.2.2.congr fun c hc => update_of_ne ?_ ..
    exact h.block_ne_pr hu (h.pageref u hu) (hw.block c (hf ▸ List.mem_cons_of_mem _ hc))
      (by decide)
  · refine List.nodup_cons.mpr ⟨fun hm => ?_, h.nodup⟩
    obtain ⟨c, hc, he⟩ := List.mem_map.mp hm
    exact hlive c hc he
  · refine List.forall_mem_cons.mpr ⟨?_, h.bound⟩
    unfold largestSubpageSize at hsz
    unfold pageSize
    omega
  · exact List.forall_mem_cons.mpr ⟨fun _ => ⟨u, hu, hblock, hsize⟩, h.small⟩
  · intro c hc
    rw [List.forall_mem_cons, ← h.free u hu c hc, hf, List.mem_cons]
    constructor
    · intro hm
      exact ⟨fun he : b = c => (List.nodup_cons.mp hnd).1 (he ▸ hm), .inr hm⟩
    · rintro ⟨hne, hm⟩
      exact hm.resolve_left fun he => hne he.symm
  · intro c hc
    rw [List.forall_mem_cons]
    exact and_iff_right fun he => hc (he ▸ hblock)

theorem filter_large_ne (hnd : (live.map Prod.fst).Nodup)
    (hb : (b, sz) ∈ live) (hsz : sz < largestSubpageSize) :
    (live.filter fun c => c.1 ≠ b).filter (fun b => largestSubpageSize ≤ b.2) =
      live.filter fun b => largestSubpageSize ≤ b.2 := by
  rw [List.filter_filter]
  refine List.filter_congr fun c hc => ?_
  by_cases hl : largestSubpageSize ≤ c.2
  · have hne : c.1 ≠ b := by
      intro he
      obtain rfl := List.inj_on_of_nodup_map hnd hc hb he
      exact absurd hl (Nat.not_le.mpr hsz)
    simp [hl, hne]
  · simp [hl]

/-- Memory after a block was put into the free list. -/
def givenMem (s : Kheap) (u : Subpage) (b : ℕ) : ℕ → ℕ :=
  (((s.fillDeadbeef b u.size).store b (u.free.head?.getD 0)).store (u.pr + 12)
    { u with free := b :: u.free }.word).mem

theorem givenMem_of_ne (hne : a ≠ u.pr + 12) (ha : a < b ∨ b + u.size ≤ a)
    (hsize : 0 < u.size) : s.givenMem u b a = s.mem a := by
  have hab : a ≠ b := by omega
  unfold givenMem
  rw [store_mem_of_ne hne, store_mem_of_ne hab, fillDeadbeef]
  refine if_neg fun hin => ?_
  omega

/-- A live block is put into the free list of its page. -/
theorem Rep.give (h : s.Rep us loose) (hu : u ∈ us) (hblock : u.IsBlock b)
    (hb : (b, sz) ∈ s.live) (hsz : sz < largestSubpageSize) :
    { s with mem := s.givenMem u b, live := s.live.filter fun c => c.1 ≠ b }.Rep
      (us.map (withFree u.pr (b :: u.free))) loose := by
  have hw := h.wf u hu
  have hbounds := hblock.bounds hw.blktype
  have hpos : 0 < u.size := blockSize_pos hw.blktype
  have hnot : b ∉ u.free := fun hm => (h.free u hu b hblock).mp hm (b, sz) hb rfl
  have hb0 : b ≠ 0 := by
    obtain ⟨h0, -⟩ := h.run _ (h.page_mem hu)
    omega
  have hne12 : ∀ c, u.IsBlock c → c ≠ u.pr + 12 := fun c hc =>
    h.block_ne_pr hu (h.pageref u hu) hc (by decide)
  refine h.setFree hu ?_ ⟨hw.blktype, hw.aligned, hw.below,
      List.forall_mem_cons.mpr ⟨hblock, hw.block⟩, List.nodup_cons.mpr ⟨hnot, hw.nodup⟩⟩
      store_mem_self ⟨rfl, hb0, ?_⟩ (filter_large_ne h.nodup hb hsz) (nodup_filter_ne h.nodup)
      (fun c hc => h.bound c (mem_filter_ne.mp hc).1)
      (fun c hc => h.small c (mem_filter_ne.mp hc).1) ?_ ?_
  · intro a hne ha
    refine givenMem_of_ne hne ?_ hpos
    omega
  · have hhead : s.givenMem u b b = u.free.head?.getD 0 := by
      unfold givenMem
      rw [store_mem_of_ne (hne12 b hblock), store_mem_self]
    rw [hhead]
    refine (h.inMem u hu).list.congr fun c hc => ?_
    have hc' := hw.block c hc
    refine givenMem_of_ne (hne12 c hc') ?_ hpos
    have hap := hblock.apart hc' fun he => hnot (he ▸ hc)
    unfold Apart at hap
    omega
  · intro c hc
    rw [List.mem_cons, h.free u hu c hc]
    constructor
    · rintro (rfl | hall) d hd
      · exact (mem_filter_ne.mp hd).2
      · exact hall d (mem_filter_ne.mp hd).1
    · intro hall
      by_cases hcb : c = b
      · exact .inl hcb
      · refine .inr fun d hd he => ?_
        exact hall d (mem_filter_ne.mpr ⟨hd, fun hdb => hcb (he.symm.trans hdb)⟩) he
  · intro c hc
    constructor
    · intro hall d hd he
      refine hall d (mem_filter_ne.mpr ⟨hd, fun hdb => hc ?_⟩) he
      rw [← he, hdb]
      exact hblock
    · intro hall d hd
      exact hall d (mem_filter_ne.mp hd).1

/-- Memory that is not the heap's own is not that of a pageref or of a free block. -/
theorem Rep.foreign_ne (h : s.Rep us loose) (hf : s.Foreign a) (hu : u ∈ us) :
    (∀ i < 16, u.pr + i ≠ a) ∧ ∀ c ∈ u.free, c ≠ a := by
  obtain ⟨-, -, r, hr, h0, hlo, hhi⟩ := h.pageref_bounds (h.pageref u hu)
  have hfree : ∀ c ∈ u.free, u.page ≤ c ∧ c < u.page + pageSize := by
    intro c hc
    obtain ⟨hlo, hhi, -⟩ := ((h.wf u hu).block c hc).lt (h.wf u hu)
    exact ⟨hlo, hhi⟩
  have hsize : pagerefSize = 16 := rfl
  rcases hf with ⟨b, hb, hab, hab'⟩ | hout
  · have hfit := le_blockBytes (h.bound b hb)
    by_cases hsz : b.2 < largestSubpageSize
    · obtain ⟨v, hv, hblock, hbytes⟩ := h.small b hb hsz
      have hbounds := hblock.bounds (h.wf v hv).blktype
      refine ⟨fun i hi => h.pr_ne_block hv (h.pageref u hu) hi (by omega) (by omega), ?_⟩
      rintro c hc rfl
      have hc' := (h.wf u hu).block c hc
      by_cases huv : u = v
      · subst huv
        have hne : c ≠ b.1 := fun he => (h.free u hu c hc').mp hc b hb he.symm
        have hap := hc'.apart hblock hne
        unfold Apart at hap
        omega
      · have hap := h.page_apart hu hv huv
        have := hfree c hc
        unfold Apart at hap
        omega
    · have hroot := h.root_apart_large hr h0 hb (Nat.not_lt.mp hsz)
      have hpage := h.page_apart_large hu hb (Nat.not_lt.mp hsz)
      rw [blockBytes, if_pos (Nat.not_lt.mp hsz)] at hfit
      unfold Apart at hroot hpage
      refine ⟨fun i hi => by omega, fun c hc => ?_⟩
      have := hfree c hc
      omega
  · have hroot := hout _ (h.root_mem hr h0)
    have hpage := hout _ (h.page_mem hu)
    unfold Apart at hroot hpage
    refine ⟨fun i hi => by omega, fun c hc => ?_⟩
    have := hfree c hc
    omega

/-- Memory that is not the heap's own is written. -/
theorem Rep.write (h : s.Rep us loose) (hf : s.Foreign a) : (s.store a w).Rep us loose := by
  have hmem : ∀ a', a' ≠ a → (s.store a w).mem a' = s.mem a' := fun a' ha => store_mem_of_ne ha
  have hrep : (s.store a w).Rep (us.map id) loose := by
    refine h.remap (fun u => ⟨rfl, rfl, rfl⟩) (fun u hu => ?_) (fun u hu => ⟨h.wf u hu, ?_⟩) rfl
      (by rw [List.map_id]; exact h.toBlocksOf)
    · obtain ⟨hne, -⟩ := h.foreign_ne hf hu
      exact ⟨hmem _ (hne 0 (by decide)), hmem _ (hne 4 (by decide))⟩
    · obtain ⟨hne, hfree⟩ := h.foreign_ne hf hu
      exact (h.inMem u hu).congr (hmem _ (hne 8 (by decide))) (hmem _ (hne 12 (by decide)))
        fun c hc => hmem c (hfree c hc)
  rwa [List.map_id] at hrep

/-! ## A new page -/

/-- Memory that is threaded holds the list of the blocks. -/
theorem isList_blocksDown {mem : ℕ → ℕ} (h0 : page ≠ 0) (hfirst : mem page = 0) :
    ∀ {n : ℕ}, (∀ i, 1 ≤ i → i < n → mem (page + i * size) = page + (i - 1) * size) →
      IsList mem ((blocksDown page size n).head?.getD 0) (blocksDown page size n)
  | 0, _ => rfl
  | 1, _ => by
    refine ⟨rfl, by omega, ?_⟩
    rw [Nat.zero_mul, Nat.add_zero]
    exact hfirst
  | n + 2, h => by
    refine ⟨rfl, by omega, ?_⟩
    have hnext := h (n + 1) (by omega) (by omega)
    rw [hnext]
    exact isList_blocksDown h0 hfirst (n := n + 1) fun i hi hin => h i hi (by omega)

/-- The loop threads the blocks from `i` on, and writes nothing else. -/
theorem threadLoop_eq {m : ℕ} (hsize : 0 < size)
    (hlt : page + m * size < 2 ^ 32) (hpr : ∀ j < m, pr + 12 ≠ page + j * size) :
    ∀ (fuel : ℕ) {i : ℕ} {s : Kheap}, s.nfree pr = m → 1 ≤ i → i ≤ m → m - i < fuel →
      ∃ mem', threadLoop pr page size fuel i (page + (i - 1) * size) s =
          .ok (page + (m - 1) * size, { s with mem := mem' }) ∧
        (∀ j, i ≤ j → j < m → mem' (page + j * size) = page + (j - 1) * size) ∧
        ∀ a, (∀ j, i ≤ j → j < m → a ≠ page + j * size) → mem' a = s.mem a := by
  intro fuel
  induction fuel with
  | zero => intro i s _ _ _ hf; omega
  | succ fuel ih =>
    intro i s hn hi him hf
    rw [threadLoop, hn]
    by_cases hlast : i < m
    · have hle : ∀ j ≤ m, page + j * size < 2 ^ 32 := by
        intro j hj
        have := Nat.mul_le_mul_right size hj
        omega
      have hw : word32 (page + i * size) = page + i * size := Nat.mod_eq_of_lt (hle i him)
      have hw' : word32 (page + (i - 1) * size) = page + (i - 1) * size :=
        Nat.mod_eq_of_lt (hle (i - 1) (by omega))
      have hstep : (i - 1) * size + size = i * size := by
        rw [← Nat.succ_mul]
        congr 1
        omega
      rw [if_pos hlast]
      dsimp only
      rw [hw, hw', store_mem_self, kassert_pos (by omega), ok_bind]
      have hnfree : (s.store (page + i * size) (page + (i - 1) * size)).nfree pr = m := by
        rw [nfree, store_mem_of_ne (hpr i hlast)]
        exact hn
      obtain ⟨mem', he, hthread, hframe⟩ := ih (i := i + 1) hnfree (by omega) (by omega) (by omega)
      refine ⟨mem', he, ?_, ?_⟩
      · intro j hj hjm
        by_cases hij : i = j
        · subst hij
          rw [hframe, store_mem_self]
          intro k hk hkm heq
          have := Nat.mul_lt_mul_of_pos_right (show i < k by omega) hsize
          omega
        · exact hthread j (by omega) hjm
      · intro a ha
        rw [hframe a fun j hj hjm => ha j (by omega) hjm, store_mem_of_ne (ha i le_rfl hlast)]
    · obtain rfl : i = m := by omega
      rw [if_neg hlast]
      exact ⟨s.mem, rfl, fun j hj hjm => absurd hjm (Nat.not_lt.mpr hj), fun _ _ => rfl⟩

theorem mkpab_eq (hva : va % pageSize = 0) (ht : t < nsizes) : mkpab va t = va + t := by
  have hframe : pageFrame va = 2 ^ 12 * (va / 4096) := by
    unfold pageFrame
    omega
  have hoffset : pageOffset t = t := by
    unfold pageOffset
    unfold nsizes at ht
    omega
  have hva' : 2 ^ 12 * (va / 4096) = va := by
    unfold pageSize at hva
    omega
  rw [mkpab, hframe, hoffset, ← Nat.two_pow_add_eq_or_of_lt (by unfold nsizes at ht; omega), hva']

/-- A new page has all its blocks in the free list, and is at the front of both lists. -/
theorem newPage_eq (ht : t < nsizes) (hal : va % pageSize = 0)
    (hlt : va + pageSize < 2 ^ 32) (hpr : ∀ i < 16, pr + i < va ∨ va + pageSize ≤ pr + i) :
    ∃ mem', s.newPage pr va t = .ok { s with
        mem := mem', sizebases := update s.sizebases t pr, allbase := pr } ∧
      mem' pr = s.sizebases t ∧ mem' (pr + 4) = s.allbase ∧ mem' (pr + 8) = va + t ∧
      mem' (pr + 12) =
        (pageSize / blockSize t - 1) * blockSize t * 2 ^ 16 + pageSize / blockSize t ∧
      mem' va = 0 ∧
      (∀ i, 1 ≤ i → i < pageSize / blockSize t →
        mem' (va + i * blockSize t) = va + (i - 1) * blockSize t) ∧
      ∀ a, (∀ i < 16, a ≠ pr + i) → (a < va ∨ va + pageSize ≤ a) → mem' a = s.mem a := by
  have hsize := blockSize_pos ht
  obtain ⟨hn1, hn⟩ := count_bounds ht
  have hmul := count_mul_blockSize ht
  generalize hm : pageSize / blockSize t = m at *
  have hin : ∀ j < m, va + j * blockSize t < va + pageSize := by
    intro j hj
    have := Nat.mul_lt_mul_of_pos_right hj hsize
    omega
  have hout : ∀ i < 16, ∀ j < m, pr + i ≠ va + j * blockSize t := by
    intro i hi j hj heq
    have := hin j hj
    rcases hpr i hi with h | h <;> omega
  have hva : ∀ i < 16, pr + i ≠ va := by
    intro i hi
    have := hout i hi 0 (by omega)
    rwa [Nat.zero_mul, Nat.add_zero] at this
  -- The state before the loop, with an offset that is not set yet.
  set s₀ := ((s.store (pr + 8) (mkpab va t)).setNfree pr m).store va 0 with hs₀
  have hword₀ : s₀.mem (pr + 12) =
      (s.store (pr + 8) (mkpab va t)).freelistOffset pr * 2 ^ 16 + m := by
    rw [hs₀, store_mem_of_ne (hva 12 (by decide)), setNfree, store_mem_self,
      Nat.mod_eq_of_lt (by omega : m < 2 ^ 16)]
  obtain ⟨mem₁, hloop, hthread, hframe⟩ := threadLoop_eq hsize
    (by omega : va + m * blockSize t < 2 ^ 32) (hout 12 (by decide)) (pageSize + 1)
    (nfree_eq hword₀ (by omega)) le_rfl (by omega) (by unfold pageSize; omega)
  have hframe' : ∀ i < 16, mem₁ (pr + i) = s₀.mem (pr + i) := fun i hi =>
    hframe _ fun j _ hj => hout i hi j hj
  have hword₁ : ({ s₀ with mem := mem₁ } : Kheap).mem (pr + 12) =
      (s.store (pr + 8) (mkpab va t)).freelistOffset pr * 2 ^ 16 + m :=
    (hframe' 12 (by decide)).trans hword₀
  have hlast : (m - 1) * blockSize t < pageSize := by
    have := hin (m - 1) (by omega)
    omega
  have hoffset : word32 (va + (m - 1) * blockSize t + 2 ^ 32 - va) = (m - 1) * blockSize t := by
    unfold word32
    omega
  have hmod : (m - 1) * blockSize t % 2 ^ 16 = (m - 1) * blockSize t := by
    unfold pageSize at hlast
    omega
  have hset : ({ s₀ with mem := mem₁ } : Kheap).setFreelistOffset pr ((m - 1) * blockSize t) =
      ({ s₀ with mem := mem₁ } : Kheap).store (pr + 12) ((m - 1) * blockSize t * 2 ^ 16 + m) := by
    rw [setFreelistOffset_eq hword₁ (by omega), hmod]
  rw [show va + (1 - 1) * blockSize t = va by simp] at hloop
  set s₁ : Kheap := { s₀ with mem := mem₁ }
  set s₂ : Kheap := ((s₁.store (pr + 12) ((m - 1) * blockSize t * 2 ^ 16 + m)).store pr
    (s.sizebases t)).store (pr + 4) s.allbase with hs₂
  have hmem₂ : ∀ a, a ≠ pr + 4 → a ≠ pr + 0 → a ≠ pr + 12 → s₂.mem a = mem₁ a :=
    fun a h4 h0 h12 => (store_mem_of_ne h4).trans
      ((store_mem_of_ne (a := pr) h0).trans (store_mem_of_ne h12))
  refine ⟨s₂.mem, ?_, ?_, store_mem_self, ?_, ?_, ?_, ?_, ?_⟩
  · unfold newPage
    dsimp only
    rw [hm, ← hs₀, hloop, ok_bind]
    rw [hoffset, hset, freelistOffset_eq store_mem_self (by omega),
      nfree_eq store_mem_self (by omega), kassert_pos rfl, ok_bind]
    rfl
  · rw [hs₂, store_mem_of_ne (by omega), store_mem_self]
  · rw [hmem₂ _ (by omega) (by omega) (by omega), hframe' 8 (by decide), hs₀,
      store_mem_of_ne (hva 8 (by decide)), setNfree, store_mem_of_ne (by omega), store_mem_self,
      mkpab_eq hal ht]
  · rw [hs₂, store_mem_of_ne (by omega), store_mem_of_ne (by omega), store_mem_self]
  · have hne : ∀ j, 1 ≤ j → j < m → va ≠ va + j * blockSize t := by
      intro j hj _
      have := Nat.mul_le_mul_right (blockSize t) hj
      omega
    rw [hmem₂ _ (hva 4 (by decide)).symm (hva 0 (by decide)).symm (hva 12 (by decide)).symm,
      hframe va hne, store_mem_self]
  · intro j hj hjm
    rw [hmem₂ _ (hout 4 (by decide) j hjm).symm (hout 0 (by decide) j hjm).symm
      (hout 12 (by decide) j hjm).symm, hthread j hj hjm]
  · intro a ha hpage
    have hne : ∀ j, 1 ≤ j → j < m → a ≠ va + j * blockSize t := by
      intro j _ hj
      have := hin j hj
      omega
    have hva' : a ≠ va := by
      omega
    rw [hmem₂ a (ha 4 (by decide)) (ha 0 (by decide)) (ha 12 (by decide)), hframe a hne, hs₀,
      store_mem_of_ne hva', setNfree, store_mem_of_ne (ha 12 (by decide)),
      store_mem_of_ne (ha 8 (by decide))]

theorem Rep.pr_outside {p : ℕ} (h : s.Rep us ((va, 1) :: loose)) (hp : s.IsPageref p) :
    ∀ i < 16, p + i < va ∨ va + pageSize ≤ p + i := by
  intro i hi
  obtain ⟨-, -, r, hr, h0, hlo, hhi⟩ := h.pageref_bounds hp
  have hap := h.loose_apart _ (List.mem_append_right _
    (List.mem_append_left _ (Rep.root_mem_rootRuns hr h0)))
  unfold RunsApart Apart at hap
  unfold pagerefSize at hhi
  omega

/-- A loose page becomes a page of blocks, with a pageref that was not used. -/
theorem Rep.addPage (h : s.Rep us ((va, 1) :: loose)) (ht : t < nsizes)
    (hpr : s.IsPageref pr) (hnew : ∀ u ∈ us, u.pr ≠ pr) :
    ∃ s', s.newPage pr va t = .ok s' ∧ s'.Rep
        (⟨pr, va, t, blocksDown va (blockSize t) (pageSize / blockSize t)⟩ :: us) loose ∧
      s'.kheaproots = s.kheaproots ∧ s'.live = s.live := by
  obtain ⟨hva, hal, -, hlt⟩ := h.loose_run
  rw [one_mul] at hlt
  obtain ⟨hpr0, -⟩ := h.pageref_bounds hpr
  obtain ⟨mem', he, hsame, hall, hpab, hword, hfirst, hthread, hframe⟩ :=
    newPage_eq (s := s) ht hal hlt (h.pr_outside hpr)
  -- The words of the other pages are where they were.
  have hold : ∀ u ∈ us, ∀ i < 16, mem' (u.pr + i) = s.mem (u.pr + i) := by
    intro u hu i hi
    exact hframe _ (fun j hj => h.pr_word_ne (h.pageref u hu) hpr (hnew u hu) hi hj)
      (h.pr_outside (h.pageref u hu) i hi)
  have hfree : ∀ u ∈ us, ∀ c ∈ u.free, mem' c = s.mem c := by
    intro u hu c hc
    have hblock := (h.wf u hu).block c hc
    have hout := h.block_outside hu hblock
    rw [one_mul] at hout
    exact hframe c (fun i hi => h.block_ne_pr hu hpr hblock hi) hout
  refine ⟨_, he, ⟨⟨h.apart, h.run, ?_, h.counted, ?_⟩, ⟨?_, ?_, ?_, ?_⟩, h.nodup, h.bound, ?_, ?_⟩,
    rfl, rfl⟩
  · exact h.owners.trans (perm_loose us _ _ loose (va, 1))
  · exact List.forall_mem_cons.mpr ⟨hpr, h.pageref⟩
  · refine h.allbase.push hpr0 hall fun x hx => ?_
    obtain ⟨u, hu, rfl⟩ := List.mem_map.mp hx
    exact hold u hu 4 (by decide)
  · intro t' ht'
    have hlist : ∀ x ∈ (us.filter fun u => u.blktype = t').map Subpage.pr, mem' x = s.mem x := by
      intro x hx
      obtain ⟨u, hu, rfl⟩ := List.mem_map.mp hx
      exact hold u (List.mem_filter.mp hu).1 0 (by decide)
    by_cases htt : t = t'
    · subst htt
      rw [List.filter_cons_of_pos (by simp)]
      dsimp only
      rw [update_self]
      exact (h.sizebases t ht).push hpr0 hsame hlist
    · rw [List.filter_cons_of_neg (by simpa using htt)]
      dsimp only
      rw [update_of_ne fun heq => htt heq.symm]
      exact (h.sizebases t' ht').congr hlist
  · refine List.forall_mem_cons.mpr ⟨⟨ht, hal, hlt, fun b hb => mem_blocksDown.mp hb, ?_⟩, h.wf⟩
    exact (isList_blocksDown hva hfirst hthread).nodup
  · refine List.forall_mem_cons.mpr ⟨⟨hpab, ?_, isList_blocksDown hva hfirst hthread⟩, ?_⟩
    · have hcount := (count_bounds ht).1
      obtain ⟨m, hm⟩ : ∃ m, pageSize / blockSize t = m + 1 := ⟨_, (Nat.succ_pred (by omega)).symm⟩
      refine hword.trans ?_
      rw [Subpage.word]
      rw [length_blocksDown, hm, blocksDown, List.head?_cons, Option.elim_some,
        Nat.add_sub_cancel_left, Nat.add_sub_cancel]
    · intro u hu
      exact (h.inMem u hu).congr (hold u hu 8 (by decide)) (hold u hu 12 (by decide)) (hfree u hu)
  · intro b hb hsz
    obtain ⟨u, hu, hblock⟩ := h.small b hb hsz
    exact ⟨u, List.mem_cons_of_mem _ hu, hblock⟩
  · refine List.forall_mem_cons.mpr ⟨fun b hb => ?_, h.free⟩
    refine ⟨fun _ c hc heq => ?_, fun _ => mem_blocksDown.mpr hb⟩
    have hbounds := hb.bounds ht
    have hpos : 0 < blockSize t := blockSize_pos ht
    have hc' := h.live_outside hc
    unfold Subpage.size at hbounds
    dsimp only at hbounds hc'
    omega

end Kheap

end OS161
