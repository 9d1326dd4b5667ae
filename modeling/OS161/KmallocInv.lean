import Mathlib.Data.Finset.Card
import Mathlib.Data.List.Pairwise
import Mathlib.Data.List.Perm.Basic
import Mathlib.Tactic.IntervalCases
import OS161.Bitmap
import OS161.Kmalloc

/-!
# The invariant of the kernel heap

The heap is described by the list of its subpage pages (`Subpage`), in the order of the list
of all pagerefs : each with its pageref, its block size and its free blocks.
`Kheap.Rep s us loose` says that memory holds the lists and free lists that `us` describes,
that every run of pages belongs to exactly one subpage page, root or large block, or is one
of `loose`, which nothing is recorded in yet, and that the blocks of a page that are not in
its free list are live.

Two things of the heap are never at one address (`Rep.pr_ne_block`, `Rep.block_inj`,
`Rep.pr_inj`), because the runs are apart. So a store to the one does not touch the other.
-/

namespace OS161

open Function

/-! ## Block sizes -/

variable {t sz b : ℕ}

theorem blockSize_pos (h : t < nsizes) : 0 < blockSize t := by
  unfold nsizes at h
  interval_cases t <;> decide

theorem count_mul_blockSize (h : t < nsizes) : pageSize / blockSize t * blockSize t = pageSize := by
  unfold nsizes at h
  interval_cases t <;> decide

theorem count_bounds (h : t < nsizes) :
    1 < pageSize / blockSize t ∧ pageSize / blockSize t ≤ 256 := by
  unfold nsizes at h
  interval_cases t <;> decide

theorem blocktype_eq (h : sz < largestSubpageSize) :
    ∃ t < nsizes, blocktype sz = .ok t ∧ blockSize t = blockBytes sz ∧ sz ≤ blockSize t := by
  have hsizes : sizes = (List.range nsizes).map blockSize := by decide
  unfold blocktype blockBytes
  rw [if_neg (Nat.not_le.mpr h), hsizes, List.find?_map]
  cases hf : (List.range nsizes).find? ((fun n => decide (sz ≤ n)) ∘ blockSize) with
  | none =>
    have h7 := List.find?_eq_none.mp hf 7 (by decide)
    have : blockSize 7 = largestSubpageSize := by decide
    simp only [Function.comp_apply, decide_eq_true_eq, this] at h7
    omega
  | some t =>
    refine ⟨t, List.mem_range.mp (List.mem_of_find?_eq_some hf), ?_, rfl, ?_⟩
    · have : (fun i => decide (sz ≤ blockSize i)) = (fun n => decide (sz ≤ n)) ∘ blockSize := rfl
      rw [this, hf]
    · simpa using List.find?_some hf

theorem le_blockBytes (h : sz + pageSize - 1 < 2 ^ 32) : sz ≤ blockBytes sz := by
  by_cases hsz : sz < largestSubpageSize
  · obtain ⟨t, -, -, ht, hle⟩ := blocktype_eq hsz
    exact ht ▸ hle
  · rw [blockBytes, if_pos (Nat.not_lt.mp hsz), Kheap.npages, word32]
    unfold pageSize at h ⊢
    omega

/-! ## Pages of blocks -/

namespace Kheap

variable {page size : ℕ}

/-- The blocks of a page, the last one first. -/
def blocksDown (page size : ℕ) : ℕ → List ℕ
  | 0 => []
  | n + 1 => (page + n * size) :: blocksDown page size n

theorem mem_blocksDown :
    ∀ {n : ℕ}, b ∈ blocksDown page size n ↔ ∃ k < n, b = page + k * size
  | 0 => by simp [blocksDown]
  | n + 1 => by
    rw [blocksDown, List.mem_cons, mem_blocksDown, Nat.exists_lt_succ_right, or_comm]

theorem length_blocksDown (page size : ℕ) : ∀ n, (blocksDown page size n).length = n
  | 0 => rfl
  | n + 1 => congrArg (· + 1) (length_blocksDown page size n)

theorem nodup_blocksDown (hsize : 0 < size) : ∀ n, (blocksDown page size n).Nodup
  | 0 => .nil
  | n + 1 => by
    refine List.nodup_cons.mpr ⟨fun hm => ?_, nodup_blocksDown hsize n⟩
    obtain ⟨k, hk, he⟩ := mem_blocksDown.mp hm
    have := Nat.mul_lt_mul_of_pos_right hk hsize
    omega

end Kheap

/-- A page of blocks, with its pageref and its free list. -/
structure Subpage where
  pr : ℕ
  page : ℕ
  blktype : ℕ
  free : List ℕ

namespace Subpage

variable {u : Subpage} {mem mem' : ℕ → ℕ}

/-- The size of the blocks. -/
def size (u : Subpage) : ℕ :=
  blockSize u.blktype

/-- The number of blocks. -/
def count (u : Subpage) : ℕ :=
  pageSize / u.size

/-- The address of a block of the page. -/
def IsBlock (u : Subpage) (b : ℕ) : Prop :=
  ∃ k < u.count, b = u.page + k * u.size

/-- The word with `freelist_offset` and `nfree`. -/
def word (u : Subpage) : ℕ :=
  (u.free.head?.elim invalidOffset fun b => b - u.page) * 2 ^ 16 + u.free.length

/-- Memory holds the pageref, up to the links to other pagerefs, and the free list. -/
structure InMem (u : Subpage) (mem : ℕ → ℕ) : Prop where
  pab : mem (u.pr + 8) = u.page + u.blktype
  word : mem (u.pr + 12) = u.word
  list : IsList mem (u.free.head?.getD 0) u.free

/-- The free list consists of different blocks of a page. -/
structure WF (u : Subpage) : Prop where
  blktype : u.blktype < nsizes
  aligned : u.page % pageSize = 0
  below : u.page + pageSize < 2 ^ 32
  block : ∀ b ∈ u.free, u.IsBlock b
  nodup : u.free.Nodup

theorem InMem.congr (h : u.InMem mem) (h8 : mem' (u.pr + 8) = mem (u.pr + 8))
    (h12 : mem' (u.pr + 12) = mem (u.pr + 12)) (hf : ∀ b ∈ u.free, mem' b = mem b) :
    u.InMem mem' :=
  ⟨h8.trans h.pab, h12.trans h.word, h.list.congr hf⟩

theorem IsBlock.bounds (hb : u.IsBlock b) (ht : u.blktype < nsizes) :
    u.page ≤ b ∧ b + u.size ≤ u.page + pageSize := by
  obtain ⟨k, hk, rfl⟩ := hb
  have hmul : (k + 1) * u.size ≤ u.count * u.size := Nat.mul_le_mul_right _ hk
  have hcount : u.count * u.size = pageSize := count_mul_blockSize ht
  rw [Nat.add_mul, one_mul] at hmul
  omega

theorem IsBlock.lt (hb : u.IsBlock b) (hw : u.WF) :
    u.page ≤ b ∧ b < u.page + pageSize ∧ b < 2 ^ 32 ∧ b - u.page < pageSize := by
  have hbounds := hb.bounds hw.blktype
  have hpos : 0 < u.size := blockSize_pos hw.blktype
  have := hw.below
  omega

/-- Two blocks of a page are the same or have no byte in common. -/
theorem IsBlock.apart {c : ℕ} (hb : u.IsBlock b) (hc : u.IsBlock c) (hne : b ≠ c) :
    Apart b u.size c u.size := by
  obtain ⟨k, hk, rfl⟩ := hb
  obtain ⟨m, hm, rfl⟩ := hc
  rcases Nat.lt_trichotomy k m with h | rfl | h
  · have := Nat.mul_le_mul_right u.size h
    rw [Nat.succ_mul] at this
    exact .inl (by omega)
  · exact (hne rfl).elim
  · have := Nat.mul_le_mul_right u.size h
    rw [Nat.succ_mul] at this
    exact .inr (by omega)

theorem free_subperm (h : u.WF) : u.free.Subperm (Kheap.blocksDown u.page u.size u.count) :=
  h.nodup.subperm fun b hb => Kheap.mem_blocksDown.mpr (h.block b hb)

theorem length_free_le (h : u.WF) : u.free.length ≤ u.count :=
  (free_subperm h).length_le.trans_eq (Kheap.length_blocksDown ..)

/-- A page with as many free blocks as it has blocks has no other. -/
theorem mem_free_of_full (h : u.WF) (hfull : u.free.length = u.count) (hb : u.IsBlock b) :
    b ∈ u.free := by
  have hperm := (free_subperm h).perm_of_length_le (by rw [Kheap.length_blocksDown, hfull])
  exact hperm.mem_iff.mpr (Kheap.mem_blocksDown.mpr hb)

end Subpage

/-! ## Roots -/

namespace KheapRoot

variable {root : KheapRoot} {k : ℕ}

/-- Entry `k` of the page is in use. -/
def Inuse (root : KheapRoot) (k : ℕ) : Prop :=
  (root.pagerefsInuse (k / 32)).getLsbD (k % 32) = true

instance (root : KheapRoot) (k : ℕ) : Decidable (root.Inuse k) :=
  inferInstanceAs (Decidable (_ = true))

/-- `numinuse` is the number of entries in use. -/
def Counted (root : KheapRoot) : Prop :=
  root.numinuse = ((Finset.range npagerefsPerPage).filter root.Inuse).card

/-- The root with entry `k` in use. -/
def mark (root : KheapRoot) (k : ℕ) : KheapRoot :=
  { root with
    pagerefsInuse := update root.pagerefsInuse (k / 32)
      (root.pagerefsInuse (k / 32) ||| 1#32 <<< (k % 32))
    numinuse := root.numinuse + 1 }

/-- The root with entry `k` free. -/
def unmark (root : KheapRoot) (k : ℕ) : KheapRoot :=
  { root with
    pagerefsInuse := update root.pagerefsInuse (k / 32)
      (root.pagerefsInuse (k / 32) &&& ~~~(1#32 <<< (k % 32)))
    numinuse := root.numinuse - 1 }

theorem slot_inj {i k : ℕ} (h : i / 32 = k / 32) (h' : k % 32 = i % 32) : i = k := by
  omega

theorem inuse_mark {i : ℕ} : (root.mark k).Inuse i ↔ root.Inuse i ∨ i = k := by
  unfold Inuse mark
  dsimp only
  by_cases hw : i / 32 = k / 32
  · rw [hw, update_self, getLsbD_or_shiftLeft (Nat.mod_lt _ (by decide)), Bool.or_eq_true,
      decide_eq_true_eq]
    exact or_congr_right ⟨slot_inj hw, fun h => by rw [h]⟩
  · rw [update_of_ne hw]
    exact ⟨.inl, fun h => h.resolve_right fun he => hw (by rw [he])⟩

theorem inuse_unmark {i : ℕ} : (root.unmark k).Inuse i ↔ root.Inuse i ∧ i ≠ k := by
  unfold Inuse unmark
  dsimp only
  by_cases hw : i / 32 = k / 32
  · rw [hw, update_self, getLsbD_and_not_shiftLeft (Nat.mod_lt _ (by decide))
      (Nat.mod_lt _ (by decide)), Bool.and_eq_true, decide_eq_true_eq]
    exact and_congr_right fun _ => not_congr ⟨slot_inj hw, fun h => by rw [h]⟩
  · rw [update_of_ne hw]
    exact ⟨fun h => ⟨h, fun he => hw (by rw [he])⟩, And.left⟩

theorem Counted.mark (h : root.Counted) (hk : k < npagerefsPerPage) (hn : ¬root.Inuse k) :
    (root.mark k).Counted := by
  have hset : (Finset.range npagerefsPerPage).filter (root.mark k).Inuse =
      insert k ((Finset.range npagerefsPerPage).filter root.Inuse) := by
    ext i
    simp only [Finset.mem_filter, Finset.mem_range, Finset.mem_insert, inuse_mark]
    constructor
    · rintro ⟨hi, hm | rfl⟩
      · exact .inr ⟨hi, hm⟩
      · exact .inl rfl
    · rintro (rfl | ⟨hi, hm⟩)
      · exact ⟨hk, .inr rfl⟩
      · exact ⟨hi, .inl hm⟩
  have hnot : k ∉ (Finset.range npagerefsPerPage).filter root.Inuse :=
    fun hm => hn (Finset.mem_filter.mp hm).2
  rw [Counted, hset, Finset.card_insert_of_notMem hnot, ← h]
  rfl

theorem Counted.unmark (h : root.Counted) (hk : k < npagerefsPerPage) (hi : root.Inuse k) :
    0 < root.numinuse ∧ (root.unmark k).Counted := by
  have hset : (Finset.range npagerefsPerPage).filter (root.unmark k).Inuse =
      ((Finset.range npagerefsPerPage).filter root.Inuse).erase k := by
    ext i
    simp only [Finset.mem_filter, Finset.mem_range, Finset.mem_erase, inuse_unmark]
    tauto
  have hmem : k ∈ (Finset.range npagerefsPerPage).filter root.Inuse :=
    Finset.mem_filter.mpr ⟨Finset.mem_range.mpr hk, hi⟩
  constructor
  · rw [h]
    exact Finset.card_pos.mpr ⟨k, hmem⟩
  · rw [Counted, hset, Finset.card_erase_of_mem hmem, ← h]
    rfl

/-- A root that is not full has a clear bit, and the search finds one. -/
theorem findClear_eq (h : root.Counted) (hn : root.numinuse < npagerefsPerPage) :
    ∃ k < npagerefsPerPage, ¬root.Inuse k ∧ root.findClear = .ok (some (k / 32, k % 32)) := by
  unfold findClear
  cases hi : (List.range inuseWords).find? fun i => root.pagerefsInuse i ≠ 0xffffffff#32 with
  | none =>
    exfalso
    have hall : (Finset.range npagerefsPerPage).filter root.Inuse =
        Finset.range npagerefsPerPage := by
      refine Finset.filter_true_of_mem fun k hk => ?_
      have hk' : k / 32 ∈ List.range inuseWords := by
        have := Finset.mem_range.mp hk
        have h1 : npagerefsPerPage = 256 := rfl
        have h2 : inuseWords = 8 := rfl
        exact List.mem_range.mpr (by omega)
      have hw := List.find?_eq_none.mp hi _ hk'
      simp only [decide_eq_true_eq, not_not] at hw
      exact eq_allOnes_iff.mp hw _ (Nat.mod_lt _ (by decide))
    rw [Counted, hall, Finset.card_range] at h
    omega
  | some i =>
    have hi' := List.mem_range.mp (List.mem_of_find?_eq_some hi)
    have hne : root.pagerefsInuse i ≠ 0xffffffff#32 := by simpa using List.find?_some hi
    dsimp only
    cases hj : (List.range 32).find? fun j => root.pagerefsInuse i &&& 1#32 <<< j = 0#32 with
    | none =>
      refine (hne (eq_allOnes_iff.mpr fun j hj' => ?_)).elim
      have hb := List.find?_eq_none.mp hj j (List.mem_range.mpr hj')
      rw [decide_eq_true_eq, and_shiftLeft_eq_zero hj', Bool.not_eq_false] at hb
      exact hb
    | some j =>
      have hj' := List.mem_range.mp (List.mem_of_find?_eq_some hj)
      have hclear : root.pagerefsInuse i &&& 1#32 <<< j = 0#32 := by
        simpa using List.find?_some hj
      rw [and_shiftLeft_eq_zero hj'] at hclear
      have hdiv : (i * 32 + j) / 32 = i := by omega
      have hmod : (i * 32 + j) % 32 = j := by omega
      refine ⟨i * 32 + j, ?_, ?_, ?_⟩
      · have h1 : npagerefsPerPage = 256 := rfl
        have h2 : inuseWords = 8 := rfl
        omega
      · rw [Inuse, hdiv, hmod, hclear]
        nofun
      · rw [hdiv, hmod]

end KheapRoot

/-! ## The invariant -/

/-- The runs have no byte in common. -/
def RunsApart (r r' : ℕ × ℕ) : Prop :=
  Apart r.1 (r.2 * pageSize) r'.1 (r'.2 * pageSize)

theorem RunsApart.symm {r r' : ℕ × ℕ} (h : RunsApart r r') : RunsApart r' r :=
  Or.symm h

theorem RunsApart.of_pairwise {α : Type} {l : List α} {f : α → ℕ × ℕ}
    (h : (l.map f).Pairwise RunsApart) {a c : α} (ha : a ∈ l) (hc : c ∈ l) (hne : a ≠ c) :
    RunsApart (f a) (f c) := by
  have : Std.Symm fun a c => RunsApart (f a) (f c) := ⟨fun _ _ h => h.symm⟩
  exact (List.pairwise_map.mp h).forall ha hc hne

namespace Kheap

/-- The pages of blocks. -/
def pageRuns (us : List Subpage) : List (ℕ × ℕ) :=
  us.map fun u => (u.page, 1)

/-- The pages of pagerefs. -/
def rootRuns (s : Kheap) : List (ℕ × ℕ) :=
  ((List.range numPagerefpages).filter fun r => (s.kheaproots r).page ≠ 0).map fun r =>
    ((s.kheaproots r).page, 1)

/-- The runs of the blocks that do not share a page. -/
def largeRuns (s : Kheap) : List (ℕ × ℕ) :=
  (s.live.filter fun b => largestSubpageSize ≤ b.2).map fun b => (b.1, npages b.2)

/-- `p` is a pageref in use. -/
def IsPageref (s : Kheap) (p : ℕ) : Prop :=
  ∃ r < numPagerefpages, ∃ k < npagerefsPerPage, (s.kheaproots r).page ≠ 0 ∧
    (s.kheaproots r).Inuse k ∧ p = (s.kheaproots r).page + k * pagerefSize

/-- Every run of pages has one owner, and the pagerefs of `us` are in use. -/
structure Pages (s : Kheap) (us : List Subpage) (loose : List (ℕ × ℕ)) : Prop where
  apart : s.runs.Pairwise RunsApart
  run : ∀ r ∈ s.runs, r.1 ≠ 0 ∧ r.1 % pageSize = 0 ∧ 0 < r.2 ∧ r.1 + r.2 * pageSize < 2 ^ 32
  owners : s.runs.Perm (pageRuns us ++ (s.rootRuns ++ (s.largeRuns ++ loose)))
  counted : ∀ r < numPagerefpages, (s.kheaproots r).Counted
  pageref : ∀ u ∈ us, s.IsPageref u.pr

/-- Memory holds the lists of pagerefs and the free lists. -/
structure ListsIn (mem : ℕ → ℕ) (allbase : ℕ) (sizebases : ℕ → ℕ) (us : List Subpage) :
    Prop where
  allbase : IsList (fun pr => mem (pr + 4)) allbase (us.map Subpage.pr)
  sizebases : ∀ t < nsizes, IsList mem (sizebases t)
    ((us.filter fun u => u.blktype = t).map Subpage.pr)
  wf : ∀ u ∈ us, u.WF
  inMem : ∀ u ∈ us, u.InMem mem

/-- The blocks of a page are live or in its free list. -/
structure BlocksOf (live : List (ℕ × ℕ)) (us : List Subpage) : Prop where
  nodup : (live.map Prod.fst).Nodup
  bound : ∀ b ∈ live, b.2 + pageSize - 1 < 2 ^ 32
  small : ∀ b ∈ live, b.2 < largestSubpageSize →
    ∃ u ∈ us, u.IsBlock b.1 ∧ blockBytes b.2 = u.size
  free : ∀ u ∈ us, ∀ b, u.IsBlock b → (b ∈ u.free ↔ ∀ c ∈ live, c.1 ≠ b)

/-- The heap is the one that `us` describes, and the pages in `loose` are unused. -/
structure Rep (s : Kheap) (us : List Subpage) (loose : List (ℕ × ℕ)) : Prop extends
  s.Pages us loose, ListsIn s.mem s.allbase s.sizebases us, BlocksOf s.live us

variable {s : Kheap} {us : List Subpage} {loose : List (ℕ × ℕ)} {u v : Subpage} {p r k : ℕ}

theorem start_rep (mem : ℕ → ℕ) : (start mem).Rep [] [] where
  apart := .nil
  run := nofun
  owners := .refl _
  counted r _ := by
    have : (Finset.range npagerefsPerPage).filter ((start mem).kheaproots r).Inuse = ∅ :=
      Finset.filter_false_of_mem fun k _ => by simp [KheapRoot.Inuse, start]
    rw [KheapRoot.Counted, this]
    rfl
  pageref := nofun
  allbase := rfl
  sizebases _ _ := rfl
  wf := nofun
  inMem := nofun
  nodup := .nil
  small := nofun
  bound := nofun
  free := nofun

namespace Rep

/-! ### Runs and their owners -/

theorem pairwise (h : s.Rep us loose) :
    (pageRuns us ++ (s.rootRuns ++ (s.largeRuns ++ loose))).Pairwise RunsApart :=
  (h.owners.pairwise_iff RunsApart.symm).mp h.apart

theorem mem_runs (h : s.Rep us loose) {x : ℕ × ℕ} : x ∈ s.runs ↔
    (∃ u ∈ us, (u.page, 1) = x) ∨ (∃ r < numPagerefpages, (s.kheaproots r).page ≠ 0 ∧
      ((s.kheaproots r).page, 1) = x) ∨ (∃ b ∈ s.live, largestSubpageSize ≤ b.2 ∧
      (b.1, npages b.2) = x) ∨ x ∈ loose := by
  rw [h.owners.mem_iff]
  simp only [pageRuns, rootRuns, largeRuns, List.mem_append, List.mem_map, List.mem_filter,
    List.mem_range,
    decide_eq_true_eq, and_assoc]

theorem page_mem (h : s.Rep us loose) (hu : u ∈ us) : (u.page, 1) ∈ s.runs :=
  h.mem_runs.mpr (.inl ⟨u, hu, rfl⟩)

theorem root_mem (h : s.Rep us loose) (hr : r < numPagerefpages) (h0 : (s.kheaproots r).page ≠ 0) :
    ((s.kheaproots r).page, 1) ∈ s.runs :=
  h.mem_runs.mpr (.inr (.inl ⟨r, hr, h0, rfl⟩))

theorem page_mem_pageRuns (hu : u ∈ us) : (u.page, 1) ∈ pageRuns us :=
  List.mem_map.mpr ⟨u, hu, rfl⟩

theorem root_mem_rootRuns (hr : r < numPagerefpages) (h0 : (s.kheaproots r).page ≠ 0) :
    ((s.kheaproots r).page, 1) ∈ s.rootRuns :=
  List.mem_map.mpr ⟨r, List.mem_filter.mpr ⟨List.mem_range.mpr hr, decide_eq_true h0⟩, rfl⟩

/-- A page of blocks has no byte in common with one of pagerefs. -/
theorem page_apart_root (h : s.Rep us loose) (hu : u ∈ us) (hr : r < numPagerefpages)
    (h0 : (s.kheaproots r).page ≠ 0) : Apart u.page pageSize (s.kheaproots r).page pageSize := by
  have hcross := (List.pairwise_append.mp h.pairwise).2.2
  have := hcross _ (page_mem_pageRuns hu) _ (List.mem_append_left _ (root_mem_rootRuns hr h0))
  simpa only [RunsApart, one_mul] using this

theorem page_apart (h : s.Rep us loose) (hu : u ∈ us) (hv : v ∈ us) (hne : u ≠ v) :
    Apart u.page pageSize v.page pageSize := by
  have := RunsApart.of_pairwise (List.pairwise_append.mp h.pairwise).1 hu hv hne
  simpa only [RunsApart, one_mul] using this

theorem root_apart (h : s.Rep us loose) {r' : ℕ} (hr : r < numPagerefpages)
    (hr' : r' < numPagerefpages)
    (h0 : (s.kheaproots r).page ≠ 0) (h0' : (s.kheaproots r').page ≠ 0) (hne : r ≠ r') :
    Apart (s.kheaproots r).page pageSize (s.kheaproots r').page pageSize := by
  have hright := (List.pairwise_append.mp h.pairwise).2.1
  have := RunsApart.of_pairwise (List.pairwise_append.mp hright).1
    (List.mem_filter.mpr ⟨List.mem_range.mpr hr, decide_eq_true h0⟩)
    (List.mem_filter.mpr ⟨List.mem_range.mpr hr', decide_eq_true h0'⟩) hne
  simpa only [RunsApart, one_mul] using this

theorem large_mem {b : ℕ × ℕ} (hb : b ∈ s.live) (hsz : largestSubpageSize ≤ b.2) :
    (b.1, npages b.2) ∈ s.largeRuns :=
  List.mem_map.mpr ⟨b, List.mem_filter.mpr ⟨hb, decide_eq_true hsz⟩, rfl⟩

theorem large_run (h : s.Rep us loose) {b : ℕ × ℕ} (hb : b ∈ s.live)
    (hsz : largestSubpageSize ≤ b.2) : b.1 ≠ 0 ∧ b.1 % pageSize = 0 ∧ 0 < npages b.2 ∧
      b.1 + npages b.2 * pageSize < 2 ^ 32 :=
  h.run _ (h.mem_runs.mpr (.inr (.inr (.inl ⟨b, hb, hsz, rfl⟩))))

theorem page_apart_large (h : s.Rep us loose) (hu : u ∈ us) {b : ℕ × ℕ} (hb : b ∈ s.live)
    (hsz : largestSubpageSize ≤ b.2) : Apart u.page pageSize b.1 (npages b.2 * pageSize) := by
  have hcross := (List.pairwise_append.mp h.pairwise).2.2
  have := hcross _ (page_mem_pageRuns hu) _
    (List.mem_append_right _ (List.mem_append_left _ (large_mem hb hsz)))
  simpa only [RunsApart, one_mul] using this

theorem root_apart_large (h : s.Rep us loose) (hr : r < numPagerefpages)
    (h0 : (s.kheaproots r).page ≠ 0) {b : ℕ × ℕ} (hb : b ∈ s.live)
    (hsz : largestSubpageSize ≤ b.2) :
    Apart (s.kheaproots r).page pageSize b.1 (npages b.2 * pageSize) := by
  have hright := (List.pairwise_append.mp h.pairwise).2.1
  have := (List.pairwise_append.mp hright).2.2 _ (root_mem_rootRuns hr h0) _
    (List.mem_append_left _ (large_mem hb hsz))
  simpa only [RunsApart, one_mul] using this

/-! ### Addresses -/

/-- Where a pageref is. -/
theorem pageref_bounds (h : s.Rep us loose) (hp : s.IsPageref p) : p ≠ 0 ∧ p % 16 = 0 ∧
    ∃ r < numPagerefpages, (s.kheaproots r).page ≠ 0 ∧ (s.kheaproots r).page ≤ p ∧
      p + pagerefSize ≤ (s.kheaproots r).page + pageSize := by
  obtain ⟨r, hr, k, hk, h0, -, rfl⟩ := hp
  obtain ⟨-, hal, -, -⟩ := h.run _ (h.root_mem hr h0)
  have h1 : npagerefsPerPage = 256 := rfl
  unfold pageSize pagerefSize at *
  exact ⟨by omega, by omega, r, hr, h0, by omega, by omega⟩

/-- A pageref is not in a page of blocks. -/
theorem pr_ne_block (h : s.Rep us loose) (hu : u ∈ us) (hp : s.IsPageref p) {a i : ℕ} (hi : i < 16)
    (ha : u.page ≤ a) (ha' : a < u.page + pageSize) : p + i ≠ a := by
  obtain ⟨-, -, r, hr, h0, hlo, hhi⟩ := h.pageref_bounds hp
  have := h.page_apart_root hu hr h0
  unfold Apart at this
  unfold pagerefSize at hhi
  omega

theorem block_ne_pr (h : s.Rep us loose) (hu : u ∈ us) (hp : s.IsPageref p) (hb : u.IsBlock b)
    {i : ℕ} (hi : i < 16) : b ≠ p + i := by
  obtain ⟨hlo, hhi, -⟩ := hb.lt (h.wf u hu)
  exact (h.pr_ne_block hu hp hi hlo hhi).symm

/-- The words of different pagerefs are at different addresses. -/
theorem pr_word_ne (h : s.Rep us loose) {p' i j : ℕ} (hp : s.IsPageref p) (hp' : s.IsPageref p')
    (hne : p ≠ p') (hi : i < 16) (hj : j < 16) : p + i ≠ p' + j := by
  obtain ⟨-, hal, -⟩ := h.pageref_bounds hp
  obtain ⟨-, hal', -⟩ := h.pageref_bounds hp'
  omega

/-- A page has one pageref. -/
theorem pr_inj (h : s.Rep us loose) (hu : u ∈ us) (hv : v ∈ us) (heq : u.pr = v.pr) : u = v :=
  List.inj_on_of_nodup_map h.allbase.nodup hu hv heq

/-- A block is in one page only. -/
theorem block_inj (h : s.Rep us loose) (hu : u ∈ us) (hv : v ∈ us) (hb : u.IsBlock b)
    (hb' : v.IsBlock b) : u = v := by
  by_contra hne
  have hap := h.page_apart hu hv hne
  have h1 := hb.lt (h.wf u hu)
  have h2 := hb'.lt (h.wf v hv)
  unfold Apart at hap
  omega

/-- What is live in a page of blocks is not large. -/
theorem small_of_block (h : s.Rep us loose) (hu : u ∈ us) {c : ℕ × ℕ} (hc : c ∈ s.live)
    (hb : u.IsBlock c.1) : c.2 < largestSubpageSize := by
  by_contra hsz
  have hap := h.page_apart_large hu hc (Nat.not_lt.mp hsz)
  obtain ⟨-, -, hn, -⟩ := h.large_run hc (Nat.not_lt.mp hsz)
  obtain ⟨hlo, hhi, -⟩ := hb.lt (h.wf u hu)
  unfold Apart pageSize at hap
  unfold pageSize at hhi
  omega

end Rep

end Kheap

end OS161
