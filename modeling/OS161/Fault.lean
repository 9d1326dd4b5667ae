import OS161.Kernel

/-!
# `vm_fault` and `as_destroy`

`vmFault` resolves a fault of the current process : it finds the page-table entry of the
address and, according to its status, gives the page a fresh frame and loads it from the
ELF file or clears it, brings it back from swap, or only reloads the TLB. A write to a
read-only page and an address outside the segments end the process through `sys__exit`.

A fault sleeps at up to two places : while a victim is written to swap (inside
`alloc_upage`), and while its own page is read, from the ELF file or from swap. The
parts between these places are functions of their own.

`asDestroy` frees the frames and the swap slots of a process and drops its table.
-/

namespace OS161

/-! ## Loading a page -/

/-- `load_page`. -/
def loadPage (k : Kernel) (v : Vnode) (offset paddr size : ℕ) : Except Halt Kernel :=
  match vopRead v offset size with
  | .error _ => .error (.panic "Error loading page\n")
  | .ok moved =>
    if moved ≠ size then .error (.panic "ELF: short read on segment - file truncated?")
    else .ok { k with ram := moveBytes v.byte offset k.ram paddr size }

/-- `as_load_page` up to `load_page` : the offset in the file, the physical address and the
number of bytes of the load. -/
def asLoadPageBegin (k : Kernel) (p : ℕ) (as : AddrSpace) (faultaddress : ℕ) :
    Except Halt (LoadPlan × Kernel) := do
  let k := vmstatsHit (vmstatsHit k .pageFaultDisk) .pageFaultElf
  let ptRow ← ptGetEntry p as faultaddress
  let segment ← asGetSegment as faultaddress
  kassert (faultaddress < roundup32 segment.elfEnd)
    "faultaddress < ROUNDUP(segment->seg_first_vaddr + segment->seg_elf_size,PAGE_SIZE)"
  kassert (pageFrame segment.segFirstVaddr ≤ faultaddress)
    "faultaddress >= (segment->seg_first_vaddr & PAGE_FRAME)"
  let plan := segment.loadPlan faultaddress
  .ok ({ plan with target := (k.pt ptRow).ptFrameIndex * pageSize + plan.target }, k)

/-! ## `vm_fault` -/

/-- `VM_FAULT_READ`, `VM_FAULT_WRITE`, `VM_FAULT_READONLY`, or any other number. -/
inductive FaultType
  | read
  | write
  | readonly
  | other
  deriving DecidableEq, Repr

/-- How `vm_fault` ends : it returns `0` or an error, or the process exits. -/
inductive FaultResult
  | ret (err : Option Errno)
  | exit (status : ℤ)
  deriving DecidableEq, Repr

/-- What `vm_fault` knows when it comes to the status of the page : the process, its
address space and file, the segment and the entry. -/
structure FaultPage where
  p : ℕ
  proc : Proc
  segType : SegType
  ptRow : PtPtr

/-- `vm_fault` up to the switch over the status of the page. -/
def faultLookup (k : Kernel) (faulttype : FaultType) (faultaddress : ℕ) :
    Except Halt (FaultResult ⊕ FaultPage) :=
  match faulttype with
  | .readonly => .ok (.inl (.exit (-1)))
  | .other => .ok (.inl (.ret (some .EINVAL)))
  | .read | .write =>
    match k.curproc with
    | none => .ok (.inl (.ret (some .EFAULT)))
    | some p =>
      match k.procs p with
      | none => .ok (.inl (.ret (some .EFAULT)))
      | some pr => do
        let as := pr.pAddrspace
        kassert as.asData.isSome "as->as_data != NULL"
        kassert as.asStack.isSome "as->as_stack != NULL"
        kassert as.asText.isSome "as->as_text != NULL"
        kassert as.asPtable.isSome "as->as_ptable != NULL"
        match ← asGetSegmentType as faultaddress with
        | none => .ok (.inl (.exit (-1)))
        | some segType => do
          let ptRow ← ptGetEntry p as faultaddress
          .ok (.inr ⟨p, pr, segType, ptRow⟩)

/-- The status of a page of the segment once it is in memory. -/
def SegType.resident : SegType → PtStatus
  | .text => .inMemoryRdonly
  | _ => .inMemory

/-- `seg_type != SEGMENT_STACK && as_check_in_elf(as, faultaddress)`. -/
def faultInElf (fp : FaultPage) (faultaddress : ℕ) : Except Halt Bool :=
  if fp.segType = .stack then .ok false else asCheckInElf fp.proc.pAddrspace faultaddress

/-- A page that was not loaded, once `alloc_upage` has its frame : its entry is set, and
then it is to be read from the ELF file, or it stays cleared. -/
def faultLoadBegin (k : Kernel) (fp : FaultPage) (faultaddress paddr : ℕ) :
    Except Halt (Option LoadPlan × Kernel) := do
  let k ← ptSetEntry k fp.ptRow paddr 0 fp.segType.resident
  let inElf ← faultInElf fp faultaddress
  if inElf then do
    let (plan, k) ← asLoadPageBegin k fp.p fp.proc.pAddrspace faultaddress
    .ok (some plan, k)
  else .ok (none, vmstatsHit k .pageFaultZero)

/-- The read of the page from the ELF file, if there is one. -/
def faultLoadEnd (k : Kernel) (fp : FaultPage) : Option LoadPlan → Except Halt Kernel
  | none => .ok k
  | some plan => loadPage k fp.proc.pVnode plan.offset plan.target plan.size

/-- A swapped page, from the `VOP_READ` of `swap_in` on. -/
def faultSwapEnd (k : Kernel) (fp : FaultPage) (paddr swapIndex : ℕ) : Except Halt Kernel := do
  let k ← swapInEnd k paddr swapIndex
  ptSetEntry k fp.ptRow paddr 0 fp.segType.resident

/-- The end of `vm_fault`. -/
def faultInsert (k : Kernel) (fp : FaultPage) (faultaddress : ℕ) : Except Halt Kernel :=
  tlbInsert k (pageFrame faultaddress) ((k.pt fp.ptRow).ptFrameIndex * pageSize)
    (fp.segType = .text)

/-- The switch over the status of the page. -/
def faultResolve (k : Kernel) (fp : FaultPage) (faultaddress : ℕ) : Except Halt Kernel :=
  match (k.pt fp.ptRow).ptStatus with
  | .notLoaded => do
    let (paddr, k) ← allocUpage k fp.ptRow
    let (plan, k) ← faultLoadBegin k fp faultaddress paddr
    faultLoadEnd k fp plan
  | .inMemory | .inMemoryRdonly => .ok (vmstatsHit k .tlbReload)
  | .inSwap => do
    let (paddr, k) ← allocUpage k fp.ptRow
    let swapIndex := (k.pt fp.ptRow).ptSwapIndex
    let k ← swapInBegin k paddr swapIndex
    faultSwapEnd k fp paddr swapIndex

/-- `vm_fault`. -/
def vmFault (k : Kernel) (faulttype : FaultType) (faultaddress : ℕ) :
    Except Halt (FaultResult × Kernel) := do
  let k := vmstatsHit k .tlbFault
  match ← faultLookup k faulttype faultaddress with
  | .inl r => .ok (r, k)
  | .inr fp => do
    let k ← faultResolve k fp faultaddress
    let k ← faultInsert k fp faultaddress
    .ok (.ret none, k)

/-! ## `as_destroy` -/

/-- The body of the loop of `pt_empty`. -/
def ptEmptyEntry (k : Kernel) (e : PtPtr) : Except Halt Kernel :=
  match (k.pt e).ptStatus with
  | .inMemory | .inMemoryRdonly => freeUpage k ((k.pt e).ptFrameIndex * pageSize)
  | .inSwap => swapFree k (k.pt e).ptSwapIndex
  | .notLoaded => .ok k

/-- The loop of `pt_empty` over the last `n` entries of the table of `p`, from entry `i`
on. -/
def ptEmptyLoop (p : ℕ) : ℕ → ℕ → Kernel → Except Halt Kernel
  | 0, _, k => .ok k
  | n + 1, i, k => do
    let k ← ptEmptyEntry k ⟨p, i⟩
    ptEmptyLoop p n (i + 1) k

/-- `as_destroy` of the address space of `p`. -/
def asDestroy (k : Kernel) (p : ℕ) : Except Halt Kernel :=
  match k.procs p with
  | none => .error (.kassert "as != NULL")
  | some pr => do
    let as := pr.pAddrspace
    let data ← deref as.asData
    let text ← deref as.asText
    let stack ← deref as.asStack
    let ptSize := data.segNpages + text.segNpages + stack.segNpages
    kassert as.asPtable.isSome "pt != NULL"
    let k ← ptEmptyLoop p ptSize 0 k
    .ok { k with procs := Function.update k.procs p none }

end OS161
