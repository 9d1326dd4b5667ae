import OS161.Fault
import OS161.LoadSafety
import OS161.Transition

/-!
# The sequential system

The system runs one operation at a time, each to its end : building a process with
`load_elf`, `as_define_stack` and `as_define_pt`, destroying an address space, switching
to another thread, `alloc_kpages` and `free_kpages`, a fault, and a load or a store of one
byte by the current process together with the faults it causes. `kmalloc` gets its pages
from `alloc_kpages`; these calls are operations of their own here, so that the set-up of a
process runs on a heap that has room (`heapRoom`).

`Sys.exec` runs an operation, `Sys.Allowed` are the promises of its callers, and
`Sys.Step` is the transition relation, labelled with what happened (`Event`). The list
`kblocks` records the kernel blocks that were handed out and not yet freed, which are the
ones `free_kpages` may be called with.
-/

namespace OS161

/-! ## Booting -/

/-- The state when the kernel has booted : nothing is known about the contents of RAM and
of the swap file. -/
def boot (coremap : Coremap) (ram swapfile : ℕ → UInt8) (ioError : ℕ → Bool) : Kernel where
  coremap := coremap
  ram := ram
  swap := ⟨bitmapCreate swapfileNpages, swapfile, ioError⟩
  tlb := ⟨tlbInvalid, 0, true⟩
  pt _ := ⟨0, 0, .notLoaded⟩
  procs _ := none
  curproc := none
  vmstats _ := 0

/-! ## Processes -/

/-- A kernel heap with room for every allocation. -/
def heapRoom : Kmalloc Unit :=
  fun _ _ => .block ()

/-- `as_activate`. -/
def asActivate (k : Kernel) : Kernel :=
  match k.curproc.bind k.procs with
  | none => k
  | some _ => tlbInvalidate k

/-- Only the TLB and the counters change. -/
theorem asActivate_eq (k : Kernel) :
    ∃ tlb stats, asActivate k = { k with tlb := tlb, vmstats := stats } := by
  unfold asActivate
  cases k.curproc.bind k.procs with
  | none => exact ⟨k.tlb, k.vmstats, rfl⟩
  | some _ => exact ⟨(tlbInvalidate k).tlb, (tlbInvalidate k).vmstats, rfl⟩

/-- The set-up of process `p` in `runprogram`. After an error the thread leaves, and the
address space stays as it is. -/
def buildProcess (k : Kernel) (p : ℕ) (v : Vnode) : Except Halt (Option Errno × Kernel) := do
  let k := tlbInvalidate { k with curproc := some p }
  let (result, as, _) ← loadProgram heapRoom v ()
  match result with
  | .error e => .ok (some e, { k with curproc := none })
  | .ok _ =>
    .ok (none, { k with
      procs := Function.update k.procs p (some ⟨as, v⟩)
      pt := fun e => if e.asid = p then ⟨0, 0, .notLoaded⟩ else k.pt e })

/-! ## Loads and stores -/

/-- The slot whose high word matches the page of `va`. -/
def Tlb.probe (tlb : Tlb) (va : ℕ) : Option (Fin 64) :=
  (List.finRange 64).find? fun i => (tlb.slot i).ehi = pageFrame va

/-- What the processor does with an access to `va` : a physical address, or a fault. -/
def Tlb.translate (tlb : Tlb) (write : Bool) (va : ℕ) : FaultType ⊕ ℕ :=
  match tlb.probe va with
  | none => .inl (if write then .write else .read)
  | some i =>
    if (tlb.slot i).valid = false then .inl (if write then .write else .read)
    else if write = true ∧ (tlb.slot i).dirty = false then .inl .readonly
    else .inr ((tlb.slot i).paddr + pageOffset va)

/-- An access by the current process, started again after each fault that `vm_fault`
resolves : the physical address, or `none` if the process was killed. A fault that
`vm_fault` reports back, and an address above user space, end in `kill_curthread`, which
panics. -/
def userAccess (write : Bool) (va : ℕ) : ℕ → Kernel → Except Halt (Option ℕ × Kernel)
  | 0, _ => .error .hang
  | fuel + 1, k =>
    if userspacetop ≤ va then .error (.panic "I don't know how to handle this\n")
    else
      match k.tlb.translate write va with
      | .inr paddr => .ok (some paddr, k)
      | .inl faulttype => do
        match ← vmFault k faulttype va with
        | (.ret none, k) => userAccess write va fuel k
        | (.ret (some _), _) => .error (.panic "I don't know how to handle this\n")
        | (.exit _, k) => .ok (none, { k with curproc := none })

/-- The number of times an access is tried before the model gives up on it. -/
def accessFuel : ℕ :=
  3

/-! ## Operations -/

/-- The operations. `switch none` leaves the current process for a thread of the kernel,
because it was preempted or because it exited. -/
inductive SysOp
  | build (p : ℕ) (v : Vnode)
  | destroy (p : ℕ)
  | switch (p : Option ℕ)
  | allocKpages (npages : ℕ)
  | freeKpages (addr : ℕ)
  | fault (faulttype : FaultType) (faultaddress : ℕ)
  | load (va : ℕ)
  | store (va : ℕ) (b : UInt8)

/-- What an operation did. -/
inductive Event
  | built (p : ℕ) (v : Vnode)
  | buildFailed (v : Vnode) (e : Errno)
  | destroyed (p : ℕ)
  | switched (p : Option ℕ)
  | allocated (npages addr : ℕ)
  | freed (addr : ℕ)
  | faulted (faulttype : FaultType) (faultaddress : ℕ) (result : FaultResult)
  | loaded (p va : ℕ) (b : UInt8)
  | stored (p va : ℕ) (b : UInt8)
  | killed (p va : ℕ)

/-- The kernel, and the blocks that `alloc_kpages` has handed out. -/
structure Sys where
  kernel : Kernel
  kblocks : List ℕ

namespace Sys

/-- What the callers of an operation promise. -/
def Allowed (s : Sys) : SysOp → Prop
  | .build p _ => s.kernel.procs p = none
  | .destroy p => (s.kernel.procs p).isSome ∧ s.kernel.curproc ≠ some p
  | .switch none => True
  | .switch (some p) => (s.kernel.procs p).isSome
  | .allocKpages npages => 0 < npages
  | .freeKpages addr => addr ∈ s.kblocks
  | .fault _ _ => True
  | .load _ => s.kernel.curproc.isSome
  | .store _ _ => s.kernel.curproc.isSome

instance (s : Sys) (op : SysOp) : Decidable (s.Allowed op) :=
  match op with
  | .build _ _ => inferInstanceAs (Decidable (_ = none))
  | .destroy _ => inferInstanceAs (Decidable (_ ∧ _))
  | .switch none => inferInstanceAs (Decidable True)
  | .switch (some _) => inferInstanceAs (Decidable (_ = true))
  | .allocKpages _ => inferInstanceAs (Decidable (_ < _))
  | .freeKpages _ => inferInstanceAs (Decidable (_ ∈ _))
  | .fault _ _ => inferInstanceAs (Decidable True)
  | .load _ => inferInstanceAs (Decidable (_ = true))
  | .store _ _ => inferInstanceAs (Decidable (_ = true))

/-- The process that runs, for the record. -/
def current (s : Sys) : ℕ :=
  s.kernel.curproc.getD 0

/-- Run an operation. -/
def exec (s : Sys) : SysOp → Except Halt (Event × Sys)
  | .build p v => do
    match ← buildProcess s.kernel p v with
    | (none, k) => .ok (.built p v, { s with kernel := k })
    | (some e, k) => .ok (.buildFailed v e, { s with kernel := k })
  | .destroy p => do
    let k ← asDestroy s.kernel p
    .ok (.destroyed p, { s with kernel := k })
  | .switch p => .ok (.switched p, { s with kernel := asActivate { s.kernel with curproc := p } })
  | .allocKpages npages => do
    let (addr, k) ← allocKpages s.kernel npages
    .ok (.allocated npages addr, ⟨k, addr :: s.kblocks⟩)
  | .freeKpages addr => do
    let k ← freeKpages s.kernel addr
    .ok (.freed addr, ⟨k, s.kblocks.erase addr⟩)
  | .fault faulttype faultaddress => do
    match ← vmFault s.kernel faulttype faultaddress with
    | (.ret e, k) => .ok (.faulted faulttype faultaddress (.ret e), { s with kernel := k })
    | (.exit status, k) =>
      .ok (.faulted faulttype faultaddress (.exit status),
        { s with kernel := { k with curproc := none } })
  | .load va => do
    match ← userAccess false va accessFuel s.kernel with
    | (some pa, k) => .ok (.loaded s.current va (k.ram pa), { s with kernel := k })
    | (none, k) => .ok (.killed s.current va, { s with kernel := k })
  | .store va b => do
    match ← userAccess true va accessFuel s.kernel with
    | (some pa, k) =>
      .ok (.stored s.current va b,
        { s with kernel := { k with ram := Function.update k.ram pa b } })
    | (none, k) => .ok (.killed s.current va, { s with kernel := k })

/-- One operation that does not stop the machine. -/
def Step (s : Sys) (ev : Event) (s' : Sys) : Prop :=
  ∃ op, s.Allowed op ∧ s.exec op = .ok (ev, s')

/-- The step of an allowed operation, for concrete runs. -/
def next (s : Sys) (op : SysOp) : Option (Event × Sys) :=
  if s.Allowed op then (s.exec op).toOption else none

theorem exec_of_next {s s' : Sys} {op : SysOp} {ev : Event} (h : s.next op = some (ev, s')) :
    s.Allowed op ∧ s.exec op = .ok (ev, s') :=
  ok_of_guard h

theorem step_of_next {s s' : Sys} {op : SysOp} {ev : Event} (h : s.next op = some (ev, s')) :
    s.Step ev s' :=
  ⟨op, exec_of_next h⟩

/-- The state after booting on a machine with `ramsize` bytes of RAM, a kernel image up to
`firstfree`, and room for both the image and the coremap. -/
def Boot (ramsize firstfree : ℕ) (s : Sys) : Prop :=
  ∃ coremap ram swapfile ioError, coremapBootstrap ramsize firstfree = .ok coremap ∧
    reservedFrames coremap.nRamFrames firstfree ≤ coremap.nRamFrames ∧
      s = ⟨boot coremap ram swapfile ioError, []⟩

/-! ## A small machine -/

/-- A program with a page of text at `0x400000` and sixteen bytes of data at `0x10000000`,
four bytes of each in the file. -/
def smallFile : Vnode :=
  elfFile 0x400000 [⟨1, 116, 0x400000, 4, 4⟩, ⟨1, 120, 0x10000000, 4, 16⟩]
    [0x10, 0x11, 0x12, 0x13, 0x20, 0x21, 0x22, 0x23]

/-- A machine with `frames` frames, of which the kernel image and the coremap take two. -/
def small (frames : ℕ) : Sys :=
  ⟨boot (.initial frames (reservedFrames frames (paddrToKvaddr pageSize))) (fun _ => 0)
    (fun _ => 0) fun _ => false, []⟩

theorem small_boot {frames : ℕ} (h2 : 2 ≤ frames) (h : frames ≤ 512) :
    Boot (frames * pageSize) (paddrToKvaddr pageSize) (small frames) := by
  refine ⟨_, _, _, _, coremapBootstrap_eq (by omega) ?_, ?_, rfl⟩
  · rw [kvaddrToPaddr_paddrToKvaddr]
    rfl
  · rw [Coremap.nRamFrames_initial, reservedFrames, kvaddrToPaddr_paddrToKvaddr]
    unfold divroundup sizeofCmEntry pageSize
    omega

end Sys

end OS161
