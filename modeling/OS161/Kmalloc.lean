import OS161.Basic
import OS161.LinkedList
import OS161.Transition

/-!
# `vm/kmalloc.c`

The kernel heap. A request for at least half a page is a run of pages from `alloc_kpages`.
Smaller ones share a page with others of their size : the free blocks of such a page are a
list threaded through the blocks themselves, and a `pageref` has its address, the offset of
the first free block and the number of free blocks. A pageref is on the list of its block
size and on the list of all of them. Pagerefs cannot come from the heap they manage, so there
are pages of them (`kheaproots`), with a bitmap of the entries in use.

Everything but the roots and the heads of the lists is in memory (`mem`, by words), at the
addresses where the source has it. `alloc_kpages` is open : `kmalloc` is given the answers
to its calls, and `runs` are the pages it was given and has not returned. `live` are the
blocks that `kmalloc` returned and `kfree` was not called for, with the size asked for. The
owner of a block writes to it what it likes (`KheapAct.write`).

`Kheap.Sound` is what holds in every state of every sequence of calls, and `Kheap.Freeable`
says that `kfree` returns, and gives the page back when its last block is freed.
-/

namespace OS161

open Function

/-! ## Tables -/

/-- `NSIZES`. -/
def nsizes : ℕ :=
  8

/-- `sizes`, the block sizes. -/
def sizes : List ℕ :=
  [16, 32, 64, 128, 256, 512, 1024, 2048]

/-- `sizes[blktype]`. -/
def blockSize (blktype : ℕ) : ℕ :=
  sizes.getD blktype 0

/-- `LARGEST_SUBPAGE_SIZE`. -/
def largestSubpageSize : ℕ :=
  2048

/-- `INVALID_OFFSET`. -/
def invalidOffset : ℕ :=
  0xffff

/-- `sizeof(struct pageref)`. -/
def pagerefSize : ℕ :=
  16

/-- `NPAGEREFS_PER_PAGE`. -/
def npagerefsPerPage : ℕ :=
  pageSize / pagerefSize

/-- `INUSE_WORDS`. -/
def inuseWords : ℕ :=
  npagerefsPerPage / 32

/-- `NUM_PAGEREFPAGES`. -/
def numPagerefpages : ℕ :=
  16

/-- `TOTAL_PAGEREFS`. -/
def totalPagerefs : ℕ :=
  numPagerefpages * npagerefsPerPage

/-- `MKPAB(pa, blk)`. -/
def mkpab (pa blk : ℕ) : ℕ :=
  pageFrame pa ||| pageOffset blk

/-- `p - q` for pointers to objects of `size` bytes, as a `size_t`. -/
def ptrDiff (p q size : ℕ) : ℕ :=
  (((p : ℤ) - q).bmod (2 ^ 32) / size % 2 ^ 32).toNat

/-- `blocktype`. -/
def blocktype (clientsz : ℕ) : Except Halt ℕ :=
  match (List.range nsizes).find? fun i => clientsz ≤ blockSize i with
  | some i => .ok i
  | none => .error (.panic "Subpage allocator cannot handle allocation of size %zu\n")

/-! ## The heap -/

/-- `struct kheap_root`. -/
structure KheapRoot where
  page : ℕ
  pagerefsInuse : ℕ → BitVec 32
  numinuse : ℕ

/-- The kernel heap, with the live blocks and the pages it holds. -/
structure Kheap where
  /-- The words of memory, by address. -/
  mem : ℕ → ℕ
  kheaproots : ℕ → KheapRoot
  sizebases : ℕ → ℕ
  allbase : ℕ
  /-- The pages that `alloc_kpages` gave and that were not returned, as first address and
  number. -/
  runs : List (ℕ × ℕ)
  /-- The blocks that were allocated and not freed, with the size asked for. -/
  live : List (ℕ × ℕ)

namespace Kheap

/-! ### Memory -/

/-- A store into memory. -/
def store (s : Kheap) (a w : ℕ) : Kheap :=
  { s with mem := update s.mem a w }

/-- `fill_deadbeef`. -/
def fillDeadbeef (s : Kheap) (vptr len : ℕ) : Kheap :=
  { s with mem := fun a =>
      if vptr ≤ a ∧ a < vptr + len / 4 * 4 ∧ (a - vptr) % 4 = 0 then 0xdeadbeef else s.mem a }

/-- `pr->next_samesize`. -/
def nextSamesize (s : Kheap) (pr : ℕ) : ℕ :=
  s.mem pr

/-- `pr->next_all`. -/
def nextAll (s : Kheap) (pr : ℕ) : ℕ :=
  s.mem (pr + 4)

/-- `PR_PAGEADDR(pr)`. -/
def prPageaddr (s : Kheap) (pr : ℕ) : ℕ :=
  pageFrame (s.mem (pr + 8))

/-- `PR_BLOCKTYPE(pr)`. -/
def prBlocktype (s : Kheap) (pr : ℕ) : ℕ :=
  pageOffset (s.mem (pr + 8))

/-- `pr->freelist_offset`, the upper half of a word. -/
def freelistOffset (s : Kheap) (pr : ℕ) : ℕ :=
  s.mem (pr + 12) / 2 ^ 16

/-- `pr->nfree`, the lower half of a word. -/
def nfree (s : Kheap) (pr : ℕ) : ℕ :=
  s.mem (pr + 12) % 2 ^ 16

/-- A store into `freelist_offset`. -/
def setFreelistOffset (s : Kheap) (pr v : ℕ) : Kheap :=
  s.store (pr + 12) (v % 2 ^ 16 * 2 ^ 16 + s.nfree pr)

/-- A store into `nfree`. -/
def setNfree (s : Kheap) (pr v : ℕ) : Kheap :=
  s.store (pr + 12) (s.freelistOffset pr * 2 ^ 16 + v % 2 ^ 16)

/-! ### Pages -/

/-- `alloc_kpages`, with its answer; `0` is out of memory. -/
def allocKpages (s : Kheap) (va npages : ℕ) : Kheap :=
  if va = 0 then s else { s with runs := (va, npages) :: s.runs }

/-- `free_kpages`. -/
def freeKpages (s : Kheap) (va : ℕ) : Kheap :=
  { s with runs := s.runs.filter fun r => r.1 ≠ va }

/-! ### Pagerefs -/

/-- Change `kheaproots[r]`. -/
def setRoot (s : Kheap) (r : ℕ) (root : KheapRoot) : Kheap :=
  { s with kheaproots := update s.kheaproots r root }

/-- `allocpagerefpage`. No other thread is running while the spinlock is released, so nobody
else has allocated the page. -/
def allocpagerefpage (s : Kheap) (r va : ℕ) : Except Halt Kheap := do
  kassert ((s.kheaproots r).page = 0) "root->page == NULL"
  if va = 0 then .ok s
  else do
    kassert (va % pageSize = 0) "va % PAGE_SIZE == 0"
    .ok ((s.allocKpages va 1).setRoot r { s.kheaproots r with page := va })

end Kheap

/-- The search through the bitmap of a root : the first word that is not full, and its first
clear bit. -/
def KheapRoot.findClear (root : KheapRoot) : Except Halt (Option (ℕ × ℕ)) :=
  match (List.range inuseWords).find? fun i => root.pagerefsInuse i ≠ 0xffffffff#32 with
  | none => .ok none
  | some i =>
    match (List.range 32).find? fun j => root.pagerefsInuse i &&& 1#32 <<< j = 0#32 with
    | none => .error (.kassert "0")
    | some j => .ok (some (i, j))

namespace Kheap

/-- The loop of `allocpageref` over the roots. -/
def allocpagerefLoop (s : Kheap) (va : ℕ) : List ℕ → Except Halt (ℕ × Kheap)
  | [] => .ok (0, s)
  | r :: rs =>
    let root := s.kheaproots r
    if npagerefsPerPage ≤ root.numinuse then s.allocpagerefLoop va rs
    else do
      match ← root.findClear with
      | none => s.allocpagerefLoop va rs
      | some (i, j) => do
        let s := s.setRoot r { root with
          pagerefsInuse := update root.pagerefsInuse i
            (root.pagerefsInuse i ||| 1#32 <<< j)
          numinuse := root.numinuse + 1 }
        let s ← if root.page = 0 then s.allocpagerefpage r va else .ok s
        let page := (s.kheaproots r).page
        if page = 0 then .ok (0, s) else .ok (page + (i * 32 + j) * pagerefSize, s)

/-- `allocpageref`; `va` is the answer to a request for a page of pagerefs. -/
def allocpageref (s : Kheap) (va : ℕ) : Except Halt (ℕ × Kheap) :=
  s.allocpagerefLoop va (List.range numPagerefpages)

/-- The loop of `freepageref` over the roots. -/
def freepagerefLoop (s : Kheap) (p : ℕ) : List ℕ → Except Halt Kheap
  | [] => .error (.kassert "0")
  | r :: rs => do
    let root := s.kheaproots r
    if root.page = 0 then do
      kassert (root.numinuse = 0) "root->numinuse == 0"
      s.freepagerefLoop p rs
    else do
      let j := ptrDiff p root.page pagerefSize
      if j < npagerefsPerPage then do
        let i := j / 32
        let k := 1#32 <<< (j % 32)
        kassert (root.pagerefsInuse i &&& k ≠ 0#32) "(root->pagerefs_inuse[i] & k) != 0"
        kassert (0 < root.numinuse) "root->numinuse > 0"
        .ok (s.setRoot r { root with
          pagerefsInuse := update root.pagerefsInuse i (root.pagerefsInuse i &&& ~~~k)
          numinuse := root.numinuse - 1 })
      else s.freepagerefLoop p rs

/-- `freepageref`. -/
def freepageref (s : Kheap) (p : ℕ) : Except Halt Kheap :=
  s.freepagerefLoop p (List.range numPagerefpages)

/-- `remove_lists`. -/
def removeLists (s : Kheap) (pr blktype : ℕ) : Except Halt Kheap := do
  kassert (blktype < nsizes) "blktype>=0 && blktype<NSIZES"
  let guy ← linkTo .hang s.nextSamesize (s.sizebases blktype) pr (totalPagerefs + 1) none
  let s := match guy with
    | none => s
    | some none =>
      { s with sizebases := update s.sizebases blktype (s.nextSamesize pr) }
    | some (some x) => s.store x (s.nextSamesize pr)
  let guy ← linkTo .hang s.nextAll s.allbase pr (totalPagerefs + 1) none
  .ok <| match guy with
    | none => s
    | some none => { s with allbase := s.nextAll pr }
    | some (some x) => s.store (x + 4) (s.nextAll pr)

/-! ### Blocks of a page -/

/-- The test in the search of `subpage_kmalloc`. -/
def hasFree (s : Kheap) (blktype pr : ℕ) : Except Halt Bool := do
  kassert (s.prBlocktype pr = blktype) "PR_BLOCKTYPE(pr) == blktype"
  .ok (0 < s.nfree pr)

/-- `subpage_kmalloc` from `doalloc` on : the first block of the free list is taken. -/
def doalloc (s : Kheap) (pr : ℕ) : Except Halt (ℕ × Kheap) := do
  kassert (s.freelistOffset pr < pageSize) "pr->freelist_offset < PAGE_SIZE"
  let prpage := s.prPageaddr pr
  let retptr := word32 (prpage + s.freelistOffset pr)
  let fl := s.mem retptr
  let s := s.setNfree pr (s.nfree pr + 2 ^ 16 - 1)
  if fl ≠ 0 then do
    kassert (0 < s.nfree pr) "pr->nfree > 0"
    let offset := word32 (fl + 2 ^ 32 - prpage)
    kassert (offset < pageSize) "fla - prpage < PAGE_SIZE"
    .ok (retptr, s.setFreelistOffset pr offset)
  else do
    kassert (s.nfree pr = 0) "pr->nfree == 0"
    .ok (retptr, s.setFreelistOffset pr invalidOffset)

/-- The loop that threads the free list of a new page; it leaves the last block. -/
def threadLoop (pr fla size : ℕ) : ℕ → ℕ → ℕ → Kheap → Except Halt (ℕ × Kheap)
  | 0, _, _, _ => .error .hang
  | n + 1, i, fl, s =>
    if i < s.nfree pr then do
      let fl := word32 (fla + i * size)
      let s := s.store fl (word32 (fla + (i - 1) * size))
      kassert (fl ≠ s.mem fl) "fl != fl->next"
      threadLoop pr fla size n (i + 1) fl s
    else .ok (fl, s)

/-- The part of `subpage_kmalloc` that sets up a new page. -/
def newPage (s : Kheap) (pr prpage blktype : ℕ) : Except Halt Kheap := do
  let size := blockSize blktype
  let s := s.store (pr + 8) (mkpab prpage blktype)
  let s := s.setNfree pr (pageSize / size)
  let s := s.store prpage 0
  let (fl, s) ← threadLoop pr prpage size (pageSize + 1) 1 prpage s
  let s := s.setFreelistOffset pr (word32 (fl + 2 ^ 32 - prpage))
  kassert (s.freelistOffset pr = (s.nfree pr - 1) * size)
    "pr->freelist_offset == (pr->nfree-1)*sizes[blktype]"
  let s := s.store pr (s.sizebases blktype)
  let s := { s with sizebases := update s.sizebases blktype pr }
  let s := s.store (pr + 4) s.allbase
  .ok { s with allbase := pr }

/-- `subpage_kmalloc`. Two pages may be asked for, one for blocks and one for pagerefs. -/
def subpageKmalloc (s : Kheap) (sz va va' : ℕ) : Except Halt (ℕ × Kheap) := do
  let blktype ← blocktype sz
  match ← findAlong .hang s.nextSamesize (s.hasFree blktype) (totalPagerefs + 1)
      (s.sizebases blktype) with
  | some pr => s.doalloc pr
  | none =>
    if va = 0 then .ok (0, s)
    else do
      kassert (va % pageSize = 0) "prpage % PAGE_SIZE == 0"
      let (pr, s) ← (s.allocKpages va 1).allocpageref va'
      if pr = 0 then .ok (0, s.freeKpages va)
      else do
        let s ← s.newPage pr va blktype
        s.doalloc pr

/-- The test in the search of `subpage_kfree`. -/
def holds (s : Kheap) (ptraddr pr : ℕ) : Except Halt Bool := do
  let prpage := s.prPageaddr pr
  kassert (s.prBlocktype pr < nsizes) "blktype>=0 && blktype<NSIZES"
  .ok (prpage ≤ ptraddr ∧ ptraddr < word32 (prpage + pageSize))

/-- The part of `subpage_kfree` that puts a block at the front of the free list. -/
def pushFree (s : Kheap) (pr offset : ℕ) : Except Halt Kheap := do
  let prpage := s.prPageaddr pr
  let fla := word32 (prpage + offset)
  let s ←
    if s.freelistOffset pr = invalidOffset then .ok (s.store fla 0)
    else do
      let s := s.store fla (word32 (prpage + s.freelistOffset pr))
      kassert (fla ≠ s.mem fla) "fl != fl->next"
      .ok s
  let s := s.setFreelistOffset pr offset
  .ok (s.setNfree pr (s.nfree pr + 1))

/-- `subpage_kfree`; `false` is its `-1`. -/
def subpageKfree (s : Kheap) (ptraddr : ℕ) : Except Halt (Bool × Kheap) := do
  match ← findAlong .hang s.nextAll (s.holds ptraddr) (totalPagerefs + 1) s.allbase with
  | none => .ok (false, s)
  | some pr => do
    let prpage := s.prPageaddr pr
    let blktype := s.prBlocktype pr
    let offset := word32 (ptraddr + 2 ^ 32 - prpage)
    if pageSize ≤ offset ∨ offset % blockSize blktype ≠ 0 then
      .error (.panic "kfree: subpage free of invalid addr %p\n")
    else do
      let s ← (s.fillDeadbeef ptraddr (blockSize blktype)).pushFree pr offset
      kassert (s.nfree pr ≤ pageSize / blockSize blktype)
        "pr->nfree <= PAGE_SIZE / sizes[blktype]"
      if s.nfree pr = pageSize / blockSize blktype then do
        let s ← s.removeLists pr blktype
        let s ← s.freepageref pr
        .ok (true, s.freeKpages prpage)
      else .ok (true, s)

/-- The pages of a request that does not fit into a page with others. -/
def npages (sz : ℕ) : ℕ :=
  word32 (sz + pageSize - 1) / pageSize

/-- `kmalloc`. The pointer is `0` if there is no memory. -/
def kmalloc (s : Kheap) (sz va va' : ℕ) : Except Halt (ℕ × Kheap) :=
  if largestSubpageSize ≤ sz then
    if va = 0 then .ok (0, s)
    else do
      kassert (va % pageSize = 0) "address % PAGE_SIZE == 0"
      .ok (va, s.allocKpages va (npages sz))
  else s.subpageKmalloc sz va va'

/-- `kfree`. -/
def kfree (s : Kheap) (ptr : ℕ) : Except Halt Kheap :=
  if ptr = 0 then .ok s
  else do
    let (found, s) ← s.subpageKfree ptr
    if found then .ok s
    else do
      kassert (ptr % pageSize = 0) "(vaddr_t)ptr%PAGE_SIZE==0"
      .ok (s.freeKpages ptr)

end Kheap

/-! ## Sequences of calls -/

/-- A call of `kmalloc` with the answers to its calls of `alloc_kpages`, a call of `kfree`,
or a write to memory that is not the heap's own. -/
inductive KheapAct
  | kmalloc (sz va va' : ℕ)
  | kfree (ptr : ℕ)
  | write (a w : ℕ)
  deriving DecidableEq, Repr

/-- `[a, a + n)` and `[b, b + m)` have no byte in common. -/
def Apart (a n b m : ℕ) : Prop :=
  a + n ≤ b ∨ b + m ≤ a

instance (a n b m : ℕ) : Decidable (Apart a n b m) :=
  inferInstanceAs (Decidable (_ ∨ _))

/-- The run of `n` pages at `va` is a possible answer of `alloc_kpages`, when the runs in
the list are not free : it consists of pages that are in none of them. The last page of the
address space is not memory that the kernel could be given. -/
def FreshRun (runs : List (ℕ × ℕ)) (va n : ℕ) : Prop :=
  va % pageSize = 0 ∧ va + n * pageSize < 2 ^ 32 ∧
    ∀ r ∈ runs, Apart va (n * pageSize) r.1 (r.2 * pageSize)

instance (runs : List (ℕ × ℕ)) (va n : ℕ) : Decidable (FreshRun runs va n) :=
  inferInstanceAs (Decidable (_ ∧ _ ∧ _))

/-- The size of the block that a request gets. -/
def blockBytes (sz : ℕ) : ℕ :=
  if largestSubpageSize ≤ sz then Kheap.npages sz * pageSize
  else (sizes.find? fun n => sz ≤ n).getD 0

/-- The number of pages asked for with a request. -/
def pagesFor (sz : ℕ) : ℕ :=
  if largestSubpageSize ≤ sz then Kheap.npages sz else 1

namespace Kheap

/-- One call, or a store of an owner. -/
def exec (s : Kheap) : KheapAct → Except Halt Kheap
  | .kmalloc sz va va' => do
    let (ptr, s) ← s.kmalloc sz va va'
    .ok (if ptr = 0 then s else { s with live := (ptr, sz) :: s.live })
  | .kfree ptr => { s with live := s.live.filter fun b => b.1 ≠ ptr }.kfree ptr
  | .write a w => .ok (s.store a w)

/-- The word at `a` is in a live block, or in no page of the heap. -/
def Foreign (s : Kheap) (a : ℕ) : Prop :=
  (∃ b ∈ s.live, b.1 ≤ a ∧ a < b.1 + b.2) ∨ ∀ r ∈ s.runs, Apart a 4 r.1 (r.2 * pageSize)

instance (s : Kheap) (a : ℕ) : Decidable (s.Foreign a) :=
  inferInstanceAs (Decidable (_ ∨ _))

/-- The sizes are such that rounding up does not overflow, `alloc_kpages` gives runs of free
pages or fails, pointers are freed when they are live, and memory is written by its owner. -/
def Allowed (s : Kheap) : KheapAct → Prop
  | .kmalloc sz va va' => sz + pageSize - 1 < 2 ^ 32 ∧ (va = 0 ∨ FreshRun s.runs va (pagesFor sz)) ∧
      (va' = 0 ∨ FreshRun ((va, 1) :: s.runs) va' 1)
  | .kfree ptr => ∃ b ∈ s.live, b.1 = ptr
  | .write a _ => s.Foreign a

instance (s : Kheap) (act : KheapAct) : Decidable (s.Allowed act) :=
  match act with
  | .kmalloc _ _ _ => inferInstanceAs (Decidable (_ ∧ _ ∧ _))
  | .kfree ptr => inferInstanceAs (Decidable (∃ b ∈ s.live, b.1 = ptr))
  | .write a _ => inferInstanceAs (Decidable (s.Foreign a))

/-- A call as the rest of the kernel makes it. -/
def Step (s : Kheap) (act : KheapAct) (s' : Kheap) : Prop :=
  s.Allowed act ∧ s.exec act = .ok s'

/-- The heap at boot : memory has any contents. -/
def start (mem : ℕ → ℕ) : Kheap where
  mem := mem
  kheaproots _ := ⟨0, fun _ => 0#32, 0⟩
  sizebases _ := 0
  allbase := 0
  runs := []
  live := []

/-! ## The properties -/

/-- The free list of a subpage page holds the blocks that are not live, each once. -/
structure FreeListOk (s : Kheap) (pr : ℕ) : Prop where
  blktype : s.prBlocktype pr < nsizes
  held : (s.prPageaddr pr, 1) ∈ s.runs
  invalid : s.freelistOffset pr = invalidOffset ↔ s.nfree pr = 0
  freelist : ∃ fl, IsList s.mem
    (if s.freelistOffset pr = invalidOffset then 0 else s.prPageaddr pr + s.freelistOffset pr) fl ∧
    fl.Nodup ∧ s.nfree pr = fl.length ∧
    ∀ b, b ∈ fl ↔ (∃ k < pageSize / blockSize (s.prBlocktype pr),
      b = s.prPageaddr pr + k * blockSize (s.prBlocktype pr)) ∧ ∀ c ∈ s.live, c.1 ≠ b

/-- The block lies within the run. -/
def Within (b r : ℕ × ℕ) : Prop :=
  r.1 ≤ b.1 ∧ b.1 + blockBytes b.2 ≤ r.1 + r.2 * pageSize

/-- What holds of the heap between two calls. A page is held if it has pagerefs or if there
is a live block in it; and `kfree` takes the path that `kmalloc` took. -/
structure Sound (s : Kheap) : Prop where
  fits : ∀ b ∈ s.live, b.2 ≤ blockBytes b.2
  within : ∀ b ∈ s.live, ∃ r ∈ s.runs, Within b r
  disjoint : s.live.Pairwise fun b c => Apart b.1 (blockBytes b.2) c.1 (blockBytes c.2)
  pagerefs : ∀ b ∈ s.live, ∀ r < numPagerefpages, (s.kheaproots r).page ≠ 0 →
    Apart b.1 (blockBytes b.2) (s.kheaproots r).page pageSize
  subpages : ∃ prs, IsList s.nextAll s.allbase prs ∧ (∀ pr ∈ prs, s.FreeListOk pr) ∧
    ∀ b ∈ s.live, b.2 < largestSubpageSize → ∃ pr ∈ prs,
      Within b (s.prPageaddr pr, 1) ∧ blockBytes b.2 = blockSize (s.prBlocktype pr)
  returned : ∀ r ∈ s.runs, (∃ i < numPagerefpages, r = ((s.kheaproots i).page, 1)) ∨
    ∃ b ∈ s.live, Within b r
  subpagePath : ∀ b ∈ s.live, b.2 < largestSubpageSize → ∀ s', s.subpageKfree b.1 ≠ .ok (false, s')
  pagePath : ∀ b ∈ s.live, largestSubpageSize ≤ b.2 → s.subpageKfree b.1 = .ok (false, s)
  returns : ∀ act, s.Allowed act → (∀ ptr, act ≠ .kfree ptr) → ∃ s', s.exec act = .ok s'

/-- `kfree` of every live block returns. It gives back the page of the block exactly if there
is no other live block in it, and no other page. -/
def Freeable (s : Kheap) : Prop :=
  ∀ b ∈ s.live, ∃ s', s.exec (.kfree b.1) = .ok s' ∧
    s'.runs = if ∃ c ∈ s'.live, pageFrame c.1 = pageFrame b.1 then s.runs
      else s.runs.filter fun r => r.1 ≠ pageFrame b.1

/-- A page of pagerefs is not refused when the root that it is for has one entry left. -/
def PagerefsGranted (s : Kheap) : KheapAct → Prop
  | .kmalloc _ _ va' => (∃ r < numPagerefpages, (s.kheaproots r).page = 0 ∧
      npagerefsPerPage ≤ (s.kheaproots r).numinuse + 1) → va' ≠ 0
  | _ => True

end Kheap

end OS161
