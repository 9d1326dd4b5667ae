import OS161.Coremap
import OS161.Bitmap
import OS161.LoadElf

/-!
# The virtual-memory state and the functions on it

`Kernel` is the state the virtual-memory code works on : the coremap, the bytes of
physical memory, the swap file with its bitmap, the TLB, the page-table entries (by
`PtPtr`), the processes with their address spaces, the current process and the counters of
`vmstats.c`. Page tables and other kernel structures live here and not in the bytes of the
kernel's frames, whose contents nothing depends on.

The functions are those of `swapfile.c`, `vm_tlb.c` and `pt.c`, the rest of `coremap.c` and
the page allocators of `vm.c`. `coremap_swapout` sleeps in `swap_out` with the spinlock
released; its two halves, and those of `coremap_getppages`, `swap_in` and `as_load_page`,
are separate functions, and the whole function runs one after the other.
-/

namespace OS161

open Function

/-! ## State -/

/-- `NOT_LOADED`, `IN_MEMORY`, `IN_SWAP` and `IN_MEMORY_RDONLY`. -/
inductive PtStatus
  | notLoaded
  | inMemory
  | inSwap
  | inMemoryRdonly
  deriving DecidableEq, Repr

/-- `struct pt_entry`. -/
structure PtEntry where
  ptFrameIndex : ℕ
  ptSwapIndex : ℕ
  ptStatus : PtStatus
  deriving DecidableEq, Repr

/-- A TLB entry : the page address of its high word, and the page address, the dirty and
the valid bit of its low word. -/
structure TlbEntry where
  ehi : ℕ
  paddr : ℕ
  dirty : Bool
  valid : Bool
  deriving DecidableEq, Repr

/-- `NUM_TLB` is not zero, so that the slots are numbered from zero. -/
instance neZero_numTlb : NeZero 64 :=
  ⟨by decide⟩

/-- `TLBHI_INVALID(i)` and `TLBLO_INVALID()`. -/
def tlbInvalid (i : Fin 64) : TlbEntry :=
  ⟨(0x80000 + i) * pageSize, 0, false, false⟩

/-- The TLB with `tlb_victim` and `tlb_free`. -/
structure Tlb where
  slot : Fin 64 → TlbEntry
  tlbVictim : Fin 64
  tlbFree : Bool

/-- `SWAPFILE_NPAGES`. -/
def swapfileNpages : ℕ :=
  2304

/-- The swap file and its bitmap. `ioError` are the slots on which the disk fails. -/
structure Swap where
  swapmap : Bitmap
  swapfile : ℕ → UInt8
  ioError : ℕ → Bool

/-- The fields of `struct proc` the virtual-memory code reads. -/
structure Proc where
  pAddrspace : AddrSpace
  pVnode : Vnode

/-- The counters of `vmstats.h`. -/
inductive Vmstat
  | tlbFault
  | tlbFaultFree
  | tlbFaultReplace
  | tlbInvalidation
  | tlbReload
  | pageFaultZero
  | pageFaultDisk
  | pageFaultElf
  | pageFaultSwap
  | swapWrite
  deriving DecidableEq, Repr

/-- The state of the virtual memory system. -/
structure Kernel where
  coremap : Coremap
  ram : ℕ → UInt8
  swap : Swap
  tlb : Tlb
  pt : PtPtr → PtEntry
  procs : ℕ → Option Proc
  /-- `none` for a thread of the kernel, which has no address space. -/
  curproc : Option ℕ
  vmstats : Vmstat → ℕ

/-- `vmstats_hit`. -/
def vmstatsHit (k : Kernel) (stat : Vmstat) : Kernel :=
  { k with vmstats := update k.vmstats stat (k.vmstats stat + 1) }

@[simp] theorem swap_vmstatsHit (k : Kernel) (stat : Vmstat) :
    (vmstatsHit k stat).swap = k.swap := rfl

@[simp] theorem pt_vmstatsHit (k : Kernel) (stat : Vmstat) : (vmstatsHit k stat).pt = k.pt := rfl

/-! ## `pt.c` -/

/-- `pt_set_entry`. -/
def ptSetEntry (k : Kernel) (e : PtPtr) (paddr swapIndex : ℕ) (status : PtStatus) :
    Except Halt Kernel := do
  kassert (swapIndex < 0xfff) "swap_index < 0xfff"
  .ok { k with pt := update k.pt e ⟨paddr / pageSize % 2 ^ 20, swapIndex, status⟩ }

/-- `pt_get_entry` in the address space of process `p`. -/
def ptGetEntry (p : ℕ) (as : AddrSpace) (vaddr : ℕ) : Except Halt PtPtr := do
  let ptIndex ← ptGetIndex as vaddr
  .ok ⟨p, ptIndex⟩

/-! ## `vm_tlb.c` -/

/-- `tlb_invalidate`. -/
def tlbInvalidate (k : Kernel) : Kernel :=
  vmstatsHit { k with tlb := ⟨tlbInvalid, 0, true⟩ } .tlbInvalidation

/-- The write of `tlb_insert` to the slot `tlb_victim`, and the step to the next one. -/
def Tlb.insert (tlb : Tlb) (entry : TlbEntry) : Tlb where
  slot := update tlb.slot tlb.tlbVictim entry
  tlbVictim := tlb.tlbVictim + 1
  tlbFree := if tlb.tlbVictim + 1 = 0 then false else tlb.tlbFree

/-- `tlb_insert`. -/
def tlbInsert (k : Kernel) (vaddr paddr : ℕ) (ro : Bool) : Except Halt Kernel := do
  kassert (pageFrame paddr = paddr) "(paddr & PAGE_FRAME) == paddr"
  let k := vmstatsHit k (if k.tlb.tlbFree then .tlbFaultFree else .tlbFaultReplace)
  .ok { k with tlb := k.tlb.insert ⟨vaddr, paddr, !ro, true⟩ }

/-- The loop of `tlb_remove_by_paddr` : it stops at the first slot whose low word has the
page address `paddr`, valid or not. -/
def Tlb.remove (tlb : Tlb) (paddr : ℕ) : Tlb :=
  match (List.finRange 64).find? fun i => (tlb.slot i).paddr = paddr with
  | some i => { tlb with slot := update tlb.slot i (tlbInvalid i) }
  | none => tlb

/-- `tlb_remove_by_paddr`. -/
def tlbRemoveByPaddr (k : Kernel) (paddr : ℕ) : Except Halt Kernel := do
  kassert (paddr % pageSize = 0) "paddr % PAGE_SIZE == 0"
  .ok { k with tlb := k.tlb.remove paddr }

/-! ## `swapfile.c` -/

/-- `swap_out`. -/
def swapOut (k : Kernel) (paddr : ℕ) : Except Halt (ℕ × Kernel) := do
  let k := vmstatsHit k .swapWrite
  kassert (paddr % pageSize = 0) "page_paddr % PAGE_SIZE == 0"
  match ← bitmapAlloc k.swap.swapmap with
  | none => .error (.panic "Out of swap space\n")
  | some (swapIndex, swapmap) =>
    if k.swap.ioError swapIndex then .error (.panic "Error swapping out\n")
    else
      let swapfile := moveBytes k.ram paddr k.swap.swapfile (swapIndex * pageSize) pageSize
      .ok (swapIndex, { k with swap := { k.swap with swapmap := swapmap, swapfile := swapfile } })

/-- `swap_in` up to the `VOP_READ`. -/
def swapInBegin (k : Kernel) (paddr swapIndex : ℕ) : Except Halt Kernel := do
  let k := vmstatsHit (vmstatsHit k .pageFaultDisk) .pageFaultSwap
  kassert (paddr % pageSize = 0) "page_paddr % PAGE_SIZE == 0"
  kassert (swapIndex < swapfileNpages) "swap_index < SWAPFILE_NPAGES"
  kassert (bitmapIsset k.swap.swapmap swapIndex = true) "bitmap_isset(swapmap, swap_index)"
  .ok k

/-- `swap_in` from the `VOP_READ` on. -/
def swapInEnd (k : Kernel) (paddr swapIndex : ℕ) : Except Halt Kernel := do
  if k.swap.ioError swapIndex then .error (.panic "Error swapping in\n")
  else do
    let ram := moveBytes k.swap.swapfile (swapIndex * pageSize) k.ram paddr pageSize
    let swapmap ← bitmapUnmark k.swap.swapmap swapIndex
    .ok { k with ram := ram, swap := { k.swap with swapmap := swapmap } }

/-- `swap_in`. -/
def swapIn (k : Kernel) (paddr swapIndex : ℕ) : Except Halt Kernel := do
  let k ← swapInBegin k paddr swapIndex
  swapInEnd k paddr swapIndex

/-- `swap_free`. -/
def swapFree (k : Kernel) (swapIndex : ℕ) : Except Halt Kernel := do
  let swapmap ← bitmapUnmark k.swap.swapmap swapIndex
  .ok { k with swap := { k.swap with swapmap := swapmap } }

/-! ## `coremap.c`, with eviction -/

/-- `coremap_swapout` up to the release of the spinlock : the victim, and whether it has to
be written to swap. A read-only page is dropped instead. -/
def coremapSwapoutBegin (k : Kernel) (npages : ℕ) : Except Halt (ℕ × Bool × Kernel) := do
  if 1 < npages then .error (.panic "Cannot swap out multiple pages")
  else do
    let (victim, cm) ← coremapGetVictim k.coremap
    let k := { k with coremap := cm }
    match victim with
    | none => .error (.panic "Cannot find swappable victim")
    | some f => do
      let e ← deref (k.coremap.owner f)
      if (k.pt e).ptStatus = .inMemoryRdonly then do
        let k ← ptSetEntry k e 0 0 .notLoaded
        let k ← tlbRemoveByPaddr k (f * pageSize)
        .ok (f, false, k)
      else .ok (f, true, { k with coremap := k.coremap.setLock f true })

/-- `coremap_swapout` after the spinlock is taken again. -/
def coremapSwapoutEnd (k : Kernel) (f swapIndex : ℕ) : Except Halt Kernel := do
  let k := { k with coremap := k.coremap.setLock f false }
  let e ← deref (k.coremap.owner f)
  let k ← ptSetEntry k e 0 swapIndex .inSwap
  tlbRemoveByPaddr k (f * pageSize)

/-- The end of `coremap_getppages` : the frames are cleared and marked. -/
def Kernel.take (k : Kernel) (beginning npages : ℕ) (ptentry : Option PtPtr) : Kernel :=
  { k with
    ram := moveBytes (fun _ => 0) 0 k.ram (beginning * pageSize) (pageSize * npages)
    coremap := k.coremap.mark beginning npages ptentry }

/-- Where `coremap_getppages` stands when it first gives up the spinlock : it has its
frames, or the victim is being written to a swap slot. -/
inductive GetState
  | done (beginning : ℕ)
  | writing (victim swapIndex : ℕ)
  deriving DecidableEq, Repr

/-- `coremap_getppages` up to the sleep in `swap_out`, or to its end. -/
def coremapGetBegin (k : Kernel) (npages : ℕ) (ptentry : Option PtPtr) :
    Except Halt (GetState × Kernel) := do
  match ← coremapFindFreeframes k.coremap npages with
  | some beginning => .ok (.done beginning, k.take beginning npages ptentry)
  | none => do
    let (f, writing, k) ← coremapSwapoutBegin k npages
    if writing then do
      let (swapIndex, k) ← swapOut k (f * pageSize)
      .ok (.writing f swapIndex, k)
    else .ok (.done f, k.take f npages ptentry)

/-- `coremap_getppages` after the sleep in `swap_out`. -/
def coremapGetEnd (k : Kernel) (f swapIndex npages : ℕ) (ptentry : Option PtPtr) :
    Except Halt Kernel := do
  let k ← coremapSwapoutEnd k f swapIndex
  .ok (k.take f npages ptentry)

/-- `coremap_getppages` : the physical address of the block. -/
def coremapGetppages (k : Kernel) (npages : ℕ) (ptentry : Option PtPtr) :
    Except Halt (ℕ × Kernel) := do
  match ← coremapGetBegin k npages ptentry with
  | (.done beginning, k) => .ok (beginning * pageSize, k)
  | (.writing f swapIndex, k) => do
    let k ← coremapGetEnd k f swapIndex npages ptentry
    .ok (f * pageSize, k)

/-! ## The page allocators of `vm.c` -/

/-- The check `getppages` makes of the address it got. -/
def checkPpages (paddr : ℕ) : Except Halt Unit :=
  if paddr = 0 then .error (.panic "Out of memory") else .ok ()

/-- `getppages`. -/
def getppages (k : Kernel) (npages : ℕ) (ptentry : Option PtPtr) : Except Halt (ℕ × Kernel) := do
  let (addr, k) ← coremapGetppages k npages ptentry
  checkPpages addr
  .ok (addr, k)

/-- `freeppages`. -/
def freeppages (k : Kernel) (addr : ℕ) : Except Halt Kernel := do
  let cm ← coremapFreeppages k.coremap addr
  .ok { k with coremap := cm }

/-- `alloc_kpages`. -/
def allocKpages (k : Kernel) (npages : ℕ) : Except Halt (ℕ × Kernel) := do
  let (pa, k) ← getppages k npages none
  .ok (paddrToKvaddr pa, k)

/-- `free_kpages`. -/
def freeKpages (k : Kernel) (addr : ℕ) : Except Halt Kernel :=
  freeppages k (kvaddrToPaddr addr)

/-- `alloc_upage`. -/
def allocUpage (k : Kernel) (ptRow : PtPtr) : Except Halt (ℕ × Kernel) :=
  getppages k 1 (some ptRow)

/-- `free_upage`. -/
def freeUpage (k : Kernel) (addr : ℕ) : Except Halt Kernel :=
  freeppages k addr

end OS161
