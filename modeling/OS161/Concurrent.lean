import OS161.System

/-!
# The concurrent system

A thread of the kernel gives up the processor where it waits for the disk : in the
`VOP_WRITE` of `swap_out`, with the spinlock of the coremap released and the victim locked,
and in the `VOP_READ` of `load_page` and of `swap_in`. What happens between two such places
is atomic. `Sleep` says where a thread sleeps and what it needs to go on; `faultBegin`,
`requestBegin` and `wake` run a thread to its next place (`Progress`), with the functions
that `vm_fault` and `alloc_kpages` are made of. Run without interruption they are `vm_fault`
(`vmFault_eq_uninterrupted`).

The threads of `Conc` are the threads of the processes, named like the process, and threads
of the kernel. Any of them that is not asleep may run, and any that sleeps may be woken.
`thread_switch` activates the address space of the thread it switches to, so that a thread
never finds the TLB entries of another.
-/

namespace OS161

/-! ## Sleeping threads -/

/-- Who asked `getppages` for a frame : `alloc_kpages`, or a fault, for a page that is in
swap or not loaded. -/
inductive Request
  | kernel
  | page (fp : FaultPage) (va : ℕ) (swapped : Bool)

/-- The entry the frame is for. -/
def Request.ptentry : Request → Option PtPtr
  | .kernel => none
  | .page fp _ _ => some fp.ptRow

/-- Where a thread sleeps. -/
inductive Sleep
  | swapOut (req : Request) (victim swapIndex : ℕ)
  | load (fp : FaultPage) (va : ℕ) (plan : LoadPlan)
  | swapIn (fp : FaultPage) (va paddr swapIndex : ℕ)

/-- What a call into the kernel came to. -/
inductive Result
  | faulted (fp : FaultPage) (va : ℕ)
  | refused (r : FaultResult)
  | allocated (paddr : ℕ)

/-- A thread runs until it sleeps or returns. -/
inductive Progress
  | sleeps (w : Sleep)
  | returns (r : Result)

/-! ## Running a thread -/

/-- The end of `vm_fault`. -/
def faultReturn (k : Kernel) (fp : FaultPage) (va : ℕ) : Except Halt (Progress × Kernel) := do
  let k ← faultInsert k fp va
  .ok (.returns (.faulted fp va), k)

/-- `vm_fault` from the return of `alloc_upage` on. -/
def faultRead (k : Kernel) (fp : FaultPage) (va paddr : ℕ) :
    Bool → Except Halt (Progress × Kernel)
  | false => do
    match ← faultLoadBegin k fp va paddr with
    | (some plan, k) => .ok (.sleeps (.load fp va plan), k)
    | (none, k) => faultReturn k fp va
  | true => do
    let swapIndex := (k.pt fp.ptRow).ptSwapIndex
    let k ← swapInBegin k paddr swapIndex
    .ok (.sleeps (.swapIn fp va paddr swapIndex), k)

/-- A request from the return of `coremap_getppages` on. -/
def requestEnd (k : Kernel) (paddr : ℕ) (req : Request) : Except Halt (Progress × Kernel) := do
  checkPpages paddr
  match req with
  | .kernel => .ok (.returns (.allocated paddr), k)
  | .page fp va swapped => faultRead k fp va paddr swapped

/-- A call of `getppages`. -/
def requestBegin (k : Kernel) (npages : ℕ) (req : Request) : Except Halt (Progress × Kernel) := do
  match ← coremapGetBegin k npages req.ptentry with
  | (.done beginning, k) => requestEnd k (beginning * pageSize) req
  | (.writing victim swapIndex, k) => .ok (.sleeps (.swapOut req victim swapIndex), k)

/-- The switch of `vm_fault` over the status of the page. -/
def faultSwitch (k : Kernel) (fp : FaultPage) (va : ℕ) : Except Halt (Progress × Kernel) :=
  match (k.pt fp.ptRow).ptStatus with
  | .notLoaded => requestBegin k 1 (.page fp va false)
  | .inMemory | .inMemoryRdonly => faultReturn (vmstatsHit k .tlbReload) fp va
  | .inSwap => requestBegin k 1 (.page fp va true)

/-- A call of `vm_fault`. -/
def faultBegin (k : Kernel) (faulttype : FaultType) (faultaddress : ℕ) :
    Except Halt (Progress × Kernel) := do
  let k := vmstatsHit k .tlbFault
  match ← faultLookup k faulttype faultaddress with
  | .inl r => .ok (.returns (.refused r), k)
  | .inr fp => faultSwitch k fp faultaddress

/-- A thread goes on from where it slept. -/
def wake (k : Kernel) : Sleep → Except Halt (Progress × Kernel)
  | .swapOut req victim swapIndex => do
    let k ← coremapGetEnd k victim swapIndex 1 req.ptentry
    requestEnd k (victim * pageSize) req
  | .load fp va plan => do
    let k ← faultLoadEnd k fp (some plan)
    faultReturn k fp va
  | .swapIn fp va paddr swapIndex => do
    let k ← faultSwapEnd k fp paddr swapIndex
    faultReturn k fp va

/-- A thread that is woken as soon as it sleeps, at most `n` times. -/
def uninterrupted : ℕ → Progress × Kernel → Except Halt (Result × Kernel)
  | _, (.returns r, k) => .ok (r, k)
  | 0, (.sleeps _, _) => .error .hang
  | n + 1, (.sleeps w, k) => do
    let r ← wake k w
    uninterrupted n r

section Uninterrupted

variable {k : Kernel} {fp : FaultPage} {va : ℕ}

/-- What `vm_fault` does after its switch. -/
def finishFault (fp : FaultPage) (va : ℕ) (k : Kernel) : Except Halt (Result × Kernel) := do
  let k ← faultInsert k fp va
  .ok (.faulted fp va, k)

theorem uninterrupted_faultReturn (n : ℕ) :
    (faultReturn k fp va >>= uninterrupted n) = finishFault fp va k := by
  unfold faultReturn finishFault
  cases faultInsert k fp va with
  | error e => rfl
  | ok k => cases n <;> rfl

theorem uninterrupted_load (n : ℕ) (paddr : ℕ) :
    (faultRead k fp va paddr false >>= uninterrupted (n + 1)) = (do
      let (plan, k) ← faultLoadBegin k fp va paddr
      let k ← faultLoadEnd k fp plan
      finishFault fp va k) := by
  unfold faultRead
  cases faultLoadBegin k fp va paddr with
  | error e => rfl
  | ok r =>
    obtain ⟨plan, k⟩ := r
    cases plan with
    | none => exact uninterrupted_faultReturn (n + 1)
    | some plan =>
      rw [ok_bind, ok_bind, ok_bind, uninterrupted, wake]
      dsimp only
      cases faultLoadEnd k fp (some plan) with
      | error e => rfl
      | ok k => exact uninterrupted_faultReturn n

theorem uninterrupted_swapIn (n : ℕ) (paddr : ℕ) :
    (faultRead k fp va paddr true >>= uninterrupted (n + 1)) = (do
      let k' ← swapInBegin k paddr (k.pt fp.ptRow).ptSwapIndex
      let k ← faultSwapEnd k' fp paddr (k.pt fp.ptRow).ptSwapIndex
      finishFault fp va k) := by
  unfold faultRead
  dsimp only
  cases swapInBegin k paddr (k.pt fp.ptRow).ptSwapIndex with
  | error e => rfl
  | ok k' =>
    rw [ok_bind, ok_bind, ok_bind, uninterrupted, wake]
    cases faultSwapEnd k' fp paddr (k.pt fp.ptRow).ptSwapIndex with
    | error e => rfl
    | ok k => exact uninterrupted_faultReturn n

/-- A request without interruption is `alloc_upage` and what follows it. -/
theorem uninterrupted_request {swapped : Bool} {rest : ℕ → Kernel → Except Halt (Result × Kernel)}
    (hrest : ∀ n paddr k, (faultRead k fp va paddr swapped >>= uninterrupted (n + 1)) =
      rest paddr k) :
    (requestBegin k 1 (.page fp va swapped) >>= uninterrupted 2) = (do
      let (paddr, k) ← allocUpage k fp.ptRow
      rest paddr k) := by
  have hend : ∀ n paddr k, (requestEnd k paddr (.page fp va swapped) >>= uninterrupted (n + 1)) =
      (do
        checkPpages paddr
        rest paddr k) := by
    intro n paddr k
    unfold requestEnd
    cases checkPpages paddr with
    | error e => rfl
    | ok u => exact hrest n paddr k
  unfold requestBegin allocUpage getppages coremapGetppages Request.ptentry
  cases coremapGetBegin k 1 (some fp.ptRow) with
  | error e => rfl
  | ok r =>
    obtain ⟨st, k⟩ := r
    cases st with
    | done b =>
      simp only [ok_bind]
      rw [hend 1]
      cases checkPpages (b * pageSize) with
      | error e => rfl
      | ok u => rfl
    | writing f s =>
      simp only [ok_bind, uninterrupted, wake, Request.ptentry]
      cases coremapGetEnd k f s 1 (some fp.ptRow) with
      | error e => rfl
      | ok k =>
        simp only [ok_bind]
        rw [hend 0]
        cases checkPpages (f * pageSize) with
        | error e => rfl
        | ok u => rfl

/-- What `vm_fault` returns. -/
def Result.toFault : Result → FaultResult
  | .refused r => r
  | _ => .ret none

theorem finishFault_toFault :
    (do
      let (result, k) ← finishFault fp va k
      .ok (result.toFault, k) : Except Halt (FaultResult × Kernel)) = (do
      let k ← faultInsert k fp va
      .ok (.ret none, k)) := by
  unfold finishFault
  cases faultInsert k fp va with
  | error e => rfl
  | ok k => rfl

/-- Run without interruption, the parts of a fault are `vm_fault`. -/
theorem vmFault_eq_uninterrupted (faulttype : FaultType) :
    vmFault k faulttype va = (do
      let (result, k) ← faultBegin k faulttype va >>= uninterrupted 2
      .ok (result.toFault, k)) := by
  unfold vmFault faultBegin
  dsimp only
  cases faultLookup (vmstatsHit k .tlbFault) faulttype va with
  | error e => rfl
  | ok r =>
    cases r with
    | inl r => rfl
    | inr fp =>
      simp only [ok_bind, faultResolve, faultSwitch]
      generalize vmstatsHit k .tlbFault = k
      cases (k.pt fp.ptRow).ptStatus with
      | notLoaded =>
        rw [uninterrupted_request fun n paddr k => uninterrupted_load n paddr]
        simp only [bind_assoc, finishFault_toFault]
      | inMemory | inMemoryRdonly =>
        rw [uninterrupted_faultReturn, finishFault_toFault, ok_bind]
      | inSwap =>
        rw [uninterrupted_request fun n paddr k => uninterrupted_swapIn n paddr]
        simp only [bind_assoc, finishFault_toFault]

end Uninterrupted

/-! ## The system -/

/-- The kernel, the threads that sleep, and the blocks handed out by `alloc_kpages`. -/
structure Conc where
  kernel : Kernel
  sleep : ℕ → Option Sleep
  kblocks : List ℕ

/-- The operations : a thread of process `p` or of the kernel gets the processor; the
running process faults; thread `t` calls `alloc_kpages`; a block is freed; the address space
of a process that has exited is destroyed; a thread that sleeps goes on. -/
inductive ConcOp
  | switch (p : Option ℕ)
  | fault (faulttype : FaultType) (faultaddress : ℕ)
  | allocKpages (t npages : ℕ)
  | freeKpages (addr : ℕ)
  | destroy (p : ℕ)
  | wake (t : ℕ)

/-- What an operation came to. -/
inductive Outcome
  | slept
  | returned (r : Result)
  | done

namespace Conc

/-- The state before anything sleeps. -/
def ofSys (s : Sys) : Conc :=
  ⟨s.kernel, fun _ => none, s.kblocks⟩

/-- Which calls the rest of the kernel makes. -/
def Allowed (s : Conc) : ConcOp → Prop
  | .switch none => True
  | .switch (some p) => (s.kernel.procs p).isSome ∧ (s.sleep p).isNone
  | .fault _ _ => s.kernel.curproc.isSome
  | .allocKpages t npages => 0 < npages ∧ (s.sleep t).isNone ∧
      s.kernel.curproc = if (s.kernel.procs t).isSome then some t else none
  | .freeKpages addr => addr ∈ s.kblocks
  | .destroy p => (s.kernel.procs p).isSome ∧ (s.sleep p).isNone ∧ s.kernel.curproc ≠ some p
  | .wake t => (s.sleep t).isSome

instance (s : Conc) (op : ConcOp) : Decidable (s.Allowed op) :=
  match op with
  | .switch none => inferInstanceAs (Decidable True)
  | .switch (some _) => inferInstanceAs (Decidable (_ ∧ _))
  | .fault _ _ => inferInstanceAs (Decidable (_ = true))
  | .allocKpages _ _ => inferInstanceAs (Decidable (_ ∧ _ ∧ _ = _))
  | .freeKpages _ => inferInstanceAs (Decidable (_ ∈ _))
  | .destroy _ => inferInstanceAs (Decidable (_ ∧ _ ∧ _))
  | .wake _ => inferInstanceAs (Decidable (_ = true))

/-- The state after thread `t` ran : it sleeps and leaves the processor, or it goes on. A
process that `vm_fault` ends does not. -/
def settle (s : Conc) (t : ℕ) : Progress × Kernel → Outcome × Conc
  | (.sleeps w, k) =>
    (.slept, ⟨{ k with curproc := none }, Function.update s.sleep t (some w), s.kblocks⟩)
  | (.returns r, k) =>
    let k := match r with
      | .refused (.exit _) => { k with curproc := none }
      | _ => k
    let kblocks := match r with
      | .allocated paddr => paddrToKvaddr paddr :: s.kblocks
      | _ => s.kblocks
    (.returned r, ⟨k, Function.update s.sleep t none, kblocks⟩)

/-- Thread `t` gets the processor. -/
def dispatch (k : Kernel) (t : ℕ) : Kernel :=
  asActivate { k with curproc := if (k.procs t).isSome then some t else none }

/-- Run an operation. -/
def exec (s : Conc) : ConcOp → Except Halt (Outcome × Conc)
  | .switch p => .ok (.done, { s with kernel := asActivate { s.kernel with curproc := p } })
  | .fault faulttype faultaddress => do
    let r ← faultBegin s.kernel faulttype faultaddress
    .ok (s.settle (s.kernel.curproc.getD 0) r)
  | .allocKpages t npages => do
    let r ← requestBegin s.kernel npages .kernel
    .ok (s.settle t r)
  | .freeKpages addr => do
    let k ← freeKpages s.kernel addr
    .ok (.done, { s with kernel := k, kblocks := s.kblocks.erase addr })
  | .destroy p => do
    let k ← asDestroy s.kernel p
    .ok (.done, { s with kernel := k })
  | .wake t =>
    match s.sleep t with
    | none => .ok (.done, s)
    | some w => do
      let r ← OS161.wake (dispatch s.kernel t) w
      .ok (s.settle t r)

/-- One operation that does not stop the machine. -/
def Step (s : Conc) (ev : ConcOp × Outcome) (s' : Conc) : Prop :=
  s.Allowed ev.1 ∧ s.exec ev.1 = .ok (ev.2, s')

/-- The step of an allowed operation, for concrete runs. -/
def next (s : Conc) (op : ConcOp) : Option ((ConcOp × Outcome) × Conc) :=
  if s.Allowed op then (s.exec op).toOption.map fun r => ((op, r.1), r.2) else none

theorem step_of_next {s s' : Conc} {op : ConcOp} {ev : ConcOp × Outcome}
    (h : s.next op = some (ev, s')) : s.Step ev s' := by
  obtain ⟨hal, r, he, hr⟩ := ok_of_guard_map h
  cases hr
  exact ⟨hal, he⟩

theorem event_of_next {s s' : Conc} {op : ConcOp} {ev : ConcOp × Outcome}
    (h : s.next op = some (ev, s')) : ∃ out, ev = (op, out) := by
  obtain ⟨-, r, -, hr⟩ := ok_of_guard_map h
  exact ⟨r.1, (Prod.mk.inj hr).1.symm⟩

end Conc

end OS161
