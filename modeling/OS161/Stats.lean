import Mathlib.Algebra.BigOperators.Group.Finset.Piecewise
import OS161.Concurrent

/-!
# The statistics

`vm_fault` counts a TLB fault before it looks at the fault, and the counters that split up
this number are hit later : the way the page was found when the switch over its status is
done (`TLB Reloads`, `Page Faults (Zeroed)`, `Page Faults (Disk)`), the kind of TLB slot in
`tlb_insert`. In between the thread may sleep, and a fault that `vm_fault` refuses, because
it is a write to a read-only page or because no segment has the address, comes to neither.

`Kernel.Owes k n m` says how far the sums are off : by `n` faults that have not come to
`tlb_insert` and by `m` faults whose page was not found yet. Each part of a fault moves the
two numbers in a fixed way (`faultBegin_owes`, `wake_owes`), so that in every state they are
the threads that sleep in a fault, and the faults that were refused (`Paging.run_tally`).
Hence, once every fault is finished, the sums hold exactly if no fault was refused
(`stats_add_up_iff`).
-/

namespace OS161

open Function

/-! ## The printed numbers -/

/-- The number `vmstats_print` prints : the counters are of type `int`. -/
def Kernel.reported (k : Kernel) (stat : Vmstat) : ℤ :=
  (k.vmstats stat : ℤ).bmod (2 ^ 32)

/-- The sums of the tables of results. -/
structure Kernel.StatsAddUp (k : Kernel) : Prop where
  slots : k.reported .tlbFault = k.reported .tlbFaultFree + k.reported .tlbFaultReplace
  pages : k.reported .tlbFault =
    k.reported .tlbReload + k.reported .pageFaultZero + k.reported .pageFaultDisk
  disk : k.reported .pageFaultDisk = k.reported .pageFaultElf + k.reported .pageFaultSwap

theorem Kernel.reported_of_lt {k : Kernel} {stat : Vmstat} (h : k.vmstats stat < 2 ^ 31) :
    k.reported stat = k.vmstats stat := by
  exact Int.bmod_eq_of_le (by omega) (by omega)

/-- The counters of faults are short of `n` insertions into the TLB and of `m` pages that
were found. -/
structure Kernel.Owes (k : Kernel) (n m : ℕ) : Prop where
  slots : k.vmstats .tlbFault = k.vmstats .tlbFaultFree + k.vmstats .tlbFaultReplace + n
  pages : k.vmstats .tlbFault =
    k.vmstats .tlbReload + k.vmstats .pageFaultZero + k.vmstats .pageFaultDisk + m
  disk : k.vmstats .pageFaultDisk = k.vmstats .pageFaultElf + k.vmstats .pageFaultSwap

/-- As long as no counter overflows, the printed sums hold exactly if nothing is owed. -/
theorem Kernel.Owes.addUp_iff {k : Kernel} {n m : ℕ} (h : k.Owes n m)
    (hlt : k.vmstats .tlbFault < 2 ^ 31) : k.StatsAddUp ↔ n = 0 ∧ m = 0 := by
  obtain ⟨hs, hp, hd⟩ := h
  have hrep : ∀ stat, k.vmstats stat ≤ k.vmstats .tlbFault → k.reported stat = k.vmstats stat :=
    fun stat hle => reported_of_lt (hle.trans_lt hlt)
  have hslots : k.reported .tlbFault = k.reported .tlbFaultFree + k.reported .tlbFaultReplace ↔
      n = 0 := by
    rw [hrep .tlbFault le_rfl, hrep .tlbFaultFree (by omega), hrep .tlbFaultReplace (by omega)]
    omega
  have hpages : k.reported .tlbFault = k.reported .tlbReload + k.reported .pageFaultZero +
      k.reported .pageFaultDisk ↔ m = 0 := by
    rw [hrep .tlbFault le_rfl, hrep .tlbReload (by omega), hrep .pageFaultZero (by omega),
      hrep .pageFaultDisk (by omega)]
    omega
  refine ⟨fun hadd => ⟨hslots.mp hadd.slots, hpages.mp hadd.pages⟩,
    fun hnm => ⟨hslots.mpr hnm.1, hpages.mpr hnm.2, ?_⟩⟩
  rw [hrep .pageFaultDisk (by omega), hrep .pageFaultElf (by omega),
    hrep .pageFaultSwap (by omega)]
  omega

/-! ## What leaves the sums alone -/

/-- No counter of the sums has changed. -/
def Kernel.SameTally (k k' : Kernel) : Prop :=
  ∀ stat, stat ≠ .tlbInvalidation → stat ≠ .swapWrite → k'.vmstats stat = k.vmstats stat

namespace Kernel.SameTally

variable {k k' k'' : Kernel}

theorem of_eq (h : k'.vmstats = k.vmstats) : k.SameTally k' :=
  fun stat _ _ => congrFun h stat

theorem refl (k : Kernel) : k.SameTally k :=
  of_eq rfl

theorem trans (h : k.SameTally k') (h' : k'.SameTally k'') : k.SameTally k'' :=
  fun stat h1 h2 => (h' stat h1 h2).trans (h stat h1 h2)

theorem hit {stat : Vmstat} (h : stat = .tlbInvalidation ∨ stat = .swapWrite) :
    k.SameTally (vmstatsHit k stat) := by
  intro st h1 h2
  refine update_of_ne ?_ _ _
  rintro rfl
  exact h.elim h1 h2

theorem owes {n m : ℕ} (h : k.SameTally k') (ho : k.Owes n m) : k'.Owes n m := by
  obtain ⟨hs, hp, hd⟩ := ho
  constructor <;> simpa [h _] using ‹_›

end Kernel.SameTally

section Unchanged

variable {k : Kernel} {e : PtPtr} {r : PtEntry}

theorem ptSetEntry_tally (paddr swapIndex : ℕ) (status : PtStatus) :
    Meets anyHalt k.SameTally (ptSetEntry k e paddr swapIndex status) :=
  (Meets.any _).bind fun _ _ => .of_eq rfl

theorem tlbRemoveByPaddr_tally (paddr : ℕ) :
    Meets anyHalt k.SameTally (tlbRemoveByPaddr k paddr) :=
  (Meets.any _).bind fun _ _ => .of_eq rfl

theorem swapOut_tally (paddr : ℕ) :
    Meets anyHalt (fun r => k.SameTally r.2) (swapOut k paddr) := by
  have hhit : k.SameTally (vmstatsHit k .swapWrite) := .hit (.inr rfl)
  refine (Meets.any _).bind fun _ _ => (Meets.any _).bind fun a _ => ?_
  rcases a with _ | ⟨swapIndex, swapmap⟩
  · trivial
  · dsimp only
    split_ifs
    · trivial
    · exact hhit

theorem coremapSwapoutBegin_tally (npages : ℕ) :
    Meets anyHalt (fun r => k.SameTally r.2.2) (coremapSwapoutBegin k npages) := by
  unfold coremapSwapoutBegin
  split_ifs
  · trivial
  refine (Meets.any _).bind fun a _ => ?_
  obtain ⟨victim, cm⟩ := a
  cases victim with
  | none => trivial
  | some f =>
    refine (Meets.any _).bind fun e _ => ?_
    split_ifs
    · refine (ptSetEntry_tally (k := { k with coremap := cm }) _ _ _).bind fun k' hk' => ?_
      refine (tlbRemoveByPaddr_tally (k := k') _).bind fun k'' hk'' => ?_
      exact Kernel.SameTally.trans hk' hk''
    · exact .of_eq rfl

theorem coremapSwapoutEnd_tally (f swapIndex : ℕ) :
    Meets anyHalt k.SameTally (coremapSwapoutEnd k f swapIndex) := by
  refine (Meets.any _).bind fun e _ => ?_
  refine (ptSetEntry_tally _ _ _).bind fun k' hk' => ?_
  exact (tlbRemoveByPaddr_tally _).mono fun _ => hk'.trans

theorem coremapGetBegin_tally (npages : ℕ) (ptentry : Option PtPtr) :
    Meets anyHalt (fun r => k.SameTally r.2) (coremapGetBegin k npages ptentry) := by
  refine (Meets.any _).bind fun a _ => ?_
  cases a with
  | some beginning => exact .of_eq rfl
  | none =>
    refine (coremapSwapoutBegin_tally npages).bind fun a ha => ?_
    obtain ⟨f, writing, k'⟩ := a
    cases writing with
    | false => exact ha
    | true =>
      exact (swapOut_tally (k := k') _).bind fun b hb => Kernel.SameTally.trans ha hb

theorem coremapGetEnd_tally (f swapIndex npages : ℕ) (ptentry : Option PtPtr) :
    Meets anyHalt k.SameTally (coremapGetEnd k f swapIndex npages ptentry) :=
  (coremapSwapoutEnd_tally f swapIndex).bind fun _ hk => hk

theorem freeppages_tally (addr : ℕ) : Meets anyHalt k.SameTally (freeppages k addr) :=
  (Meets.any _).bind fun _ _ => .of_eq rfl

theorem swapFree_tally (swapIndex : ℕ) : Meets anyHalt k.SameTally (swapFree k swapIndex) :=
  (Meets.any _).bind fun _ _ => .of_eq rfl

theorem ptEmptyEntry_tally (e : PtPtr) : Meets anyHalt k.SameTally (ptEmptyEntry k e) := by
  unfold ptEmptyEntry freeUpage
  cases (k.pt e).ptStatus with
  | notLoaded => exact .refl k
  | inMemory => exact freeppages_tally _
  | inMemoryRdonly => exact freeppages_tally _
  | inSwap => exact swapFree_tally _

theorem ptEmptyLoop_tally (p : ℕ) :
    ∀ (n i : ℕ) (k : Kernel), Meets anyHalt k.SameTally (ptEmptyLoop p n i k)
  | 0, _, k => Kernel.SameTally.refl k
  | n + 1, i, k => (ptEmptyEntry_tally (k := k) ⟨p, i⟩).bind fun k' hk' =>
      (ptEmptyLoop_tally p n (i + 1) k').mono fun _ => hk'.trans

theorem asDestroy_tally (p : ℕ) : Meets anyHalt k.SameTally (asDestroy k p) := by
  unfold asDestroy
  cases k.procs p with
  | none => trivial
  | some pr =>
    refine (Meets.any _).bind fun data _ => (Meets.any _).bind fun text _ => ?_
    refine (Meets.any _).bind fun stack _ => (Meets.any _).bind fun _ _ => ?_
    exact (ptEmptyLoop_tally p _ 0 k).bind fun _ hk => hk

theorem tlbInvalidate_tally : k.SameTally (tlbInvalidate k) :=
  .hit (k := { k with tlb := ⟨tlbInvalid, 0, true⟩ }) (.inl rfl)

theorem asActivate_tally : k.SameTally (asActivate k) := by
  unfold asActivate
  cases k.curproc.bind k.procs with
  | none => exact .refl k
  | some _ => exact tlbInvalidate_tally

theorem buildProcess_tally (p : ℕ) (v : Vnode) :
    Meets anyHalt (fun r => k.SameTally r.2) (buildProcess k p v) := by
  have hinv : k.SameTally (tlbInvalidate { k with curproc := some p }) :=
    tlbInvalidate_tally (k := { k with curproc := some p })
  refine (Meets.any _).bind fun a _ => ?_
  obtain ⟨result, as, u⟩ := a
  cases result <;> exact hinv

end Unchanged

/-! ## The parts of a fault -/

/-- The faults of the thread that have not come to `tlb_insert`. -/
def Request.uninserted : Request → ℕ
  | .kernel => 0
  | .page _ _ _ => 1

/-- The faults that have no TLB entry yet. -/
def Sleep.uninserted : Sleep → ℕ
  | .swapOut req _ _ => req.uninserted
  | .load _ _ _ => 1
  | .swapIn _ _ _ _ => 1

/-- The faults of the thread whose page was not found yet. -/
def Sleep.unfound : Sleep → ℕ
  | .swapOut req _ _ => req.uninserted
  | .load _ _ _ => 0
  | .swapIn _ _ _ _ => 0

/-- The faults that `vm_fault` gave up. -/
def Result.refusals : Result → ℕ
  | .refused _ => 1
  | _ => 0

/-- The faults that were refused. -/
def Progress.refusals : Progress → ℕ
  | .sleeps _ => 0
  | .returns r => r.refusals

/-- A count over the thread that ran, if it sleeps now. -/
def Progress.asleep (f : Sleep → ℕ) : Progress → ℕ
  | .sleeps w => f w
  | .returns _ => 0

section Parts

variable {k : Kernel} {n m : ℕ} {fp : FaultPage} {va : ℕ} {stat : Vmstat}

/-- The thread came as far as `r`, with nothing refused, and the other threads owe `n` and
`m`. -/
def Settles (n m : ℕ) (r : Progress × Kernel) : Prop :=
  r.1.refusals = 0 ∧
    r.2.Owes (n + r.1.asleep Sleep.uninserted) (m + r.1.asleep Sleep.unfound)

theorem Kernel.Owes.fault (h : k.Owes n m) : (vmstatsHit k .tlbFault).Owes (n + 1) (m + 1) := by
  obtain ⟨hs, hp, hd⟩ := h
  constructor <;> simp [vmstatsHit] <;> omega

theorem Kernel.Owes.found (h : k.Owes n (m + 1))
    (hst : stat = .tlbReload ∨ stat = .pageFaultZero) : (vmstatsHit k stat).Owes n m := by
  obtain ⟨hs, hp, hd⟩ := h
  rcases hst with rfl | rfl <;> constructor <;> simp [vmstatsHit] <;> omega

theorem Kernel.Owes.read (h : k.Owes n (m + 1))
    (hst : stat = .pageFaultElf ∨ stat = .pageFaultSwap) :
    (vmstatsHit (vmstatsHit k .pageFaultDisk) stat).Owes n m := by
  obtain ⟨hs, hp, hd⟩ := h
  rcases hst with rfl | rfl <;> constructor <;> simp [vmstatsHit] <;> omega

theorem Kernel.Owes.inserted (h : k.Owes (n + 1) m)
    (hst : stat = .tlbFaultFree ∨ stat = .tlbFaultReplace) : (vmstatsHit k stat).Owes n m := by
  obtain ⟨hs, hp, hd⟩ := h
  rcases hst with rfl | rfl <;> constructor <;> simp [vmstatsHit] <;> omega

theorem Kernel.Owes.congr {k' : Kernel} (h : k.Owes n m) (hst : k'.vmstats = k.vmstats) :
    k'.Owes n m :=
  (Kernel.SameTally.of_eq hst).owes h

theorem tlbInsert_owes (h : k.Owes (n + 1) m) (vaddr paddr : ℕ) (ro : Bool) :
    Meets anyHalt (fun k' => k'.Owes n m) (tlbInsert k vaddr paddr ro) := by
  refine (Meets.any _).bind fun _ _ => ?_
  have hstat : ∀ b : Bool, (if b then Vmstat.tlbFaultFree else .tlbFaultReplace) = .tlbFaultFree ∨
      (if b then Vmstat.tlbFaultFree else .tlbFaultReplace) = .tlbFaultReplace := by decide
  exact (h.inserted (hstat k.tlb.tlbFree)).congr rfl

theorem faultReturn_owes (h : k.Owes (n + 1) m) :
    Meets anyHalt (Settles n m) (faultReturn k fp va) :=
  (tlbInsert_owes h _ _ _).bind fun _ hk => ⟨rfl, hk⟩

theorem faultLoadBegin_owes (h : k.Owes n (m + 1)) (paddr : ℕ) :
    Meets anyHalt (fun r => r.2.Owes n m) (faultLoadBegin k fp va paddr) := by
  refine (ptSetEntry_tally _ _ _).bind fun k' hk' => (Meets.any _).bind fun inElf _ => ?_
  have h' := hk'.owes h
  cases inElf with
  | false => exact h'.found (.inr rfl)
  | true =>
    have hbegin : Meets anyHalt (fun r => r.2.Owes n m)
        (asLoadPageBegin k' fp.p fp.proc.pAddrspace va) := by
      refine (Meets.any _).bind fun _ _ => (Meets.any _).bind fun _ _ => ?_
      refine (Meets.any _).bind fun _ _ => (Meets.any _).bind fun _ _ => ?_
      exact h'.read (.inl rfl)
    exact hbegin.bind fun a ha => ha

theorem swapInBegin_owes (h : k.Owes n (m + 1)) (paddr swapIndex : ℕ) :
    Meets anyHalt (fun k' => k'.Owes n m) (swapInBegin k paddr swapIndex) := by
  refine (Meets.any _).bind fun _ _ => (Meets.any _).bind fun _ _ => ?_
  exact (Meets.any _).bind fun _ _ => h.read (.inr rfl)

theorem faultRead_owes (h : k.Owes (n + 1) (m + 1)) (paddr : ℕ) (swapped : Bool) :
    Meets anyHalt (Settles n m) (faultRead k fp va paddr swapped) := by
  cases swapped with
  | false =>
    refine (faultLoadBegin_owes h paddr).bind fun a ha => ?_
    obtain ⟨plan, k'⟩ := a
    cases plan with
    | none => exact faultReturn_owes ha
    | some plan => exact ⟨rfl, ha⟩
  | true => exact (swapInBegin_owes h paddr _).bind fun _ hk => ⟨rfl, hk⟩

theorem requestEnd_owes {req : Request} (h : k.Owes (n + req.uninserted) (m + req.uninserted))
    (paddr : ℕ) : Meets anyHalt (Settles n m) (requestEnd k paddr req) := by
  refine (Meets.any _).bind fun _ _ => ?_
  cases req with
  | kernel => exact ⟨rfl, h⟩
  | page fp va swapped => exact faultRead_owes h paddr swapped

theorem requestBegin_owes (req : Request) (h : k.Owes (n + req.uninserted) (m + req.uninserted))
    (npages : ℕ) : Meets anyHalt (Settles n m) (requestBegin k npages req) := by
  refine (coremapGetBegin_tally npages req.ptentry).bind fun a ha => ?_
  obtain ⟨st, k'⟩ := a
  cases st with
  | done beginning => exact requestEnd_owes (ha.owes h) _
  | writing victim swapIndex => exact ⟨rfl, ha.owes h⟩

theorem faultSwitch_owes (h : k.Owes (n + 1) (m + 1)) :
    Meets anyHalt (Settles n m) (faultSwitch k fp va) := by
  unfold faultSwitch
  cases (k.pt fp.ptRow).ptStatus with
  | notLoaded => exact requestBegin_owes (.page fp va false) h 1
  | inMemory | inMemoryRdonly => exact faultReturn_owes (h.found (.inl rfl))
  | inSwap => exact requestBegin_owes (.page fp va true) h 1

/-- The fault is one that `vm_fault` does not refuse : a read or a write at an address of a
segment of the running process. -/
def Kernel.Resolvable (k : Kernel) (faulttype : FaultType) (va : ℕ) : Prop :=
  (faulttype = .read ∨ faulttype = .write) ∧ ∃ p pr, k.curproc = some p ∧
    k.procs p = some pr ∧ asGetSegmentType pr.pAddrspace va ≠ .ok none

theorem faultLookup_resolvable (faulttype : FaultType) :
    Meets anyHalt (fun r => r.isRight = true ↔ k.Resolvable faulttype va)
      (faultLookup k faulttype va) := by
  have hread : faulttype = .read ∨ faulttype = .write →
      Meets anyHalt (fun r => r.isRight = true ↔ k.Resolvable faulttype va)
        (faultLookup k .read va) := by
    intro hty
    unfold faultLookup Kernel.Resolvable
    cases hc : k.curproc with
    | none => simp
    | some p =>
      cases hp : k.procs p with
      | none => simp [hp]
      | some pr =>
        dsimp only
        rw [hp]
        refine (Meets.any _).bind fun _ _ => (Meets.any _).bind fun _ _ => ?_
        refine (Meets.any _).bind fun _ _ => (Meets.any _).bind fun _ _ => ?_
        cases hseg : asGetSegmentType pr.pAddrspace va with
        | error e => trivial
        | ok seg =>
          cases seg with
          | none => simp [hp, hseg]
          | some segType =>
            rw [ok_bind]
            refine (Meets.any _).bind fun ptRow _ => ?_
            simp [hp, hseg, hty]
  cases faulttype with
  | read => exact hread (.inl rfl)
  | write => exact hread (.inr rfl)
  | readonly | other => simp [faultLookup, Kernel.Resolvable]

/-- `Settles` for calls that refuse a fault unless `c`. -/
def SettlesIf (c : Prop) (n m : ℕ) (r : Progress × Kernel) : Prop :=
  (r.1.refusals = 0 ↔ c) ∧ r.2.Owes (n + r.1.refusals + r.1.asleep Sleep.uninserted)
    (m + r.1.refusals + r.1.asleep Sleep.unfound)

theorem Settles.settlesIf {r : Progress × Kernel} (h : Settles n m r) : SettlesIf True n m r := by
  rw [SettlesIf, h.1]
  exact ⟨⟨fun _ => trivial, fun _ => rfl⟩, h.2⟩

/-- A fault that begins. -/
theorem faultBegin_owes (h : k.Owes n m) (faulttype : FaultType) :
    Meets anyHalt (SettlesIf (k.Resolvable faulttype va) n m) (faultBegin k faulttype va) := by
  refine (faultLookup_resolvable (k := vmstatsHit k .tlbFault) faulttype).bind fun a ha => ?_
  cases a with
  | inl r =>
    refine ⟨⟨?_, ?_⟩, h.fault⟩
    · intro h0
      cases h0
    · intro hres
      cases ha.mpr hres
  | inr fp =>
    refine (faultSwitch_owes h.fault).mono fun r hr => ⟨?_, hr.settlesIf.2⟩
    exact hr.settlesIf.1.trans (iff_of_true trivial (ha.mp rfl))

/-- A thread that goes on. -/
theorem wake_owes {w : Sleep} (h : k.Owes (n + w.uninserted) (m + w.unfound)) :
    Meets anyHalt (Settles n m) (wake k w) := by
  cases w with
  | swapOut req victim swapIndex =>
    exact (coremapGetEnd_tally _ _ _ _).bind fun _ hk => requestEnd_owes (hk.owes h) _
  | load fp va plan =>
    have hload : Meets anyHalt k.SameTally (faultLoadEnd k fp (some plan)) := by
      unfold faultLoadEnd loadPage
      dsimp only
      cases vopRead fp.proc.pVnode plan.offset plan.size with
      | error e => trivial
      | ok moved =>
        dsimp only
        split_ifs
        · trivial
        · exact .of_eq rfl
    exact hload.bind fun _ hk => faultReturn_owes (hk.owes h)
  | swapIn fp va paddr swapIndex =>
    have hswap : Meets anyHalt k.SameTally (faultSwapEnd k fp paddr swapIndex) := by
      have hin : Meets anyHalt k.SameTally (swapInEnd k paddr swapIndex) := by
        unfold swapInEnd
        split_ifs
        · trivial
        · exact (Meets.any _).bind fun _ _ => .of_eq rfl
      exact hin.bind fun k' hk' => (ptSetEntry_tally _ _ _).mono fun _ => hk'.trans
    exact hswap.bind fun _ hk => faultReturn_owes (hk.owes h)

end Parts

/-! ## The system -/

/-- The operations of the concurrent system, and the set-up of a process. -/
inductive PagingOp
  | build (p : ℕ) (v : Vnode)
  | run (op : ConcOp)

/-- The faults that were refused. -/
def Outcome.refusals : Outcome → ℕ
  | .returned r => r.refusals
  | _ => 0

namespace Paging

/-- The thread whose calls an operation of the concurrent system runs, if it is not a thread
that is woken. -/
def caller (s : Conc) : ConcOp → Option ℕ
  | .fault _ _ => s.kernel.curproc
  | .allocKpages t _ => some t
  | _ => none

/-- As in the concurrent system; and a thread that sleeps runs only when it is woken. -/
def Allowed (s : Conc) : PagingOp → Prop
  | .build p _ => s.kernel.procs p = none ∧ s.sleep p = none
  | .run op => s.Allowed op ∧ ((caller s op).bind s.sleep).isNone

instance (s : Conc) (op : PagingOp) : Decidable (Allowed s op) :=
  match op with
  | .build p _ => inferInstanceAs (Decidable (_ = none ∧ s.sleep p = none))
  | .run op => inferInstanceAs (Decidable (s.Allowed op ∧ _ = true))

/-- A process is set up, or a thread runs. -/
def exec (s : Conc) : PagingOp → Except Halt (Outcome × Conc)
  | .build p v => do
    let (_, k) ← buildProcess s.kernel p v
    .ok (.done, { s with kernel := k })
  | .run op => s.exec op

/-- One operation that does not stop the machine. -/
def Step (s : Conc) (ev : PagingOp × Outcome) (s' : Conc) : Prop :=
  Allowed s ev.1 ∧ exec s ev.1 = .ok (ev.2, s')

/-- The operation is not a fault that `vm_fault` refuses. -/
def Resolves (s : Conc) (ev : PagingOp × Outcome) : Prop :=
  match ev.1 with
  | .run (.fault faulttype va) => s.kernel.Resolvable faulttype va
  | _ => True

/-- No thread is inside `vm_fault`. -/
def Finished (s : Conc) : Prop :=
  ∀ t w, s.sleep t = some w → w.uninserted = 0

/-! ## The invariant -/

/-- The number of faults that were refused. -/
def refusals (tr : List (PagingOp × Outcome)) : ℕ :=
  (tr.map fun ev => ev.2.refusals).sum

/-- A count over the threads of `T`, which are all that sleep. -/
def asleep (T : Finset ℕ) (sleep : ℕ → Option Sleep) (f : Sleep → ℕ) : ℕ :=
  ∑ t ∈ T, (sleep t).elim 0 f

theorem asleep_update {T : Finset ℕ} {t : ℕ} (ht : t ∈ T) (sleep : ℕ → Option Sleep)
    (w : Option Sleep) (f : Sleep → ℕ) :
    asleep T (update sleep t w) f = asleep (T.erase t) sleep f + w.elim 0 f := by
  unfold asleep
  rw [← Finset.sum_erase_add T _ ht, update_self]
  congr 1
  refine Finset.sum_congr rfl fun u hu => ?_
  rw [update_of_ne (Finset.ne_of_mem_erase hu)]

/-- The faults that `k` owes are those of the threads that sleep, and `n` others. -/
def Tally (n : ℕ) (k : Kernel) (sleep : ℕ → Option Sleep) : Prop :=
  ∃ T : Finset ℕ, (∀ t, t ∉ T → sleep t = none) ∧
    k.Owes (n + asleep T sleep Sleep.uninserted) (n + asleep T sleep Sleep.unfound)

variable {k : Kernel} {sleep : ℕ → Option Sleep} {n t : ℕ} {s s' : Conc} {op : PagingOp}

theorem Tally.same {k' : Kernel} (h : Tally n k sleep) (hk : k.SameTally k') :
    Tally n k' sleep := by
  obtain ⟨T, hT, ho⟩ := h
  exact ⟨T, hT, hk.owes ho⟩

/-- What the threads other than `t` owe. -/
theorem Tally.other (h : Tally n k sleep) (t : ℕ) :
    ∃ T : Finset ℕ, t ∈ T ∧ (∀ u, u ∉ T → sleep u = none) ∧
      k.Owes (n + asleep (T.erase t) sleep Sleep.uninserted + (sleep t).elim 0 Sleep.uninserted)
        (n + asleep (T.erase t) sleep Sleep.unfound + (sleep t).elim 0 Sleep.unfound) := by
  obtain ⟨T, hT, ho⟩ := h
  have hins : ∀ f, asleep T sleep f =
      asleep ((insert t T).erase t) sleep f + (sleep t).elim 0 f := by
    intro f
    have hup := asleep_update (Finset.mem_insert_self t T) sleep (sleep t) f
    rw [update_eq_self] at hup
    rw [← hup]
    by_cases ht : t ∈ T
    · rw [Finset.insert_eq_of_mem ht]
    · rw [asleep, asleep, Finset.sum_insert ht, hT t ht]
      exact (Nat.zero_add _).symm
  refine ⟨insert t T, Finset.mem_insert_self t T, fun u hu => ?_, ?_⟩
  · exact hT u fun h => hu (Finset.mem_insert_of_mem h)
  · rw [hins, hins, ← Nat.add_assoc, ← Nat.add_assoc] at ho
    exact ho

/-- Thread `t` ran, and the others slept on. -/
theorem Tally.settle {T : Finset ℕ} {r : Progress × Kernel} (ht : t ∈ T)
    (hT : ∀ u, u ∉ T → s.sleep u = none)
    (h : r.2.Owes (n + asleep (T.erase t) s.sleep Sleep.uninserted +
        r.1.asleep Sleep.uninserted)
      (n + asleep (T.erase t) s.sleep Sleep.unfound + r.1.asleep Sleep.unfound)) :
    Tally n (s.settle t r).2.kernel (s.settle t r).2.sleep := by
  have hnone : ∀ w u, u ∉ T → update s.sleep t w u = none := by
    intro w u hu
    have hne : u ≠ t := by
      rintro rfl
      exact hu ht
    rw [update_of_ne hne]
    exact hT u hu
  obtain ⟨pr, k⟩ := r
  cases pr with
  | sleeps w =>
    refine ⟨T, hnone (some w), ?_⟩
    simp only [Conc.settle, asleep_update ht, ← Nat.add_assoc]
    exact h.congr rfl
  | returns r =>
    refine ⟨T, hnone none, ?_⟩
    simp only [Conc.settle, asleep_update ht, ← Nat.add_assoc]
    refine Kernel.Owes.congr (k := k) h ?_
    cases r with
    | refused fr => cases fr <;> rfl
    | faulted fp va => rfl
    | allocated paddr => rfl

theorem settle_refusals (s : Conc) (t : ℕ) (r : Progress × Kernel) :
    (s.settle t r).1.refusals = r.1.refusals := by
  obtain ⟨pr, k⟩ := r
  cases pr <;> rfl

/-- The calls of a thread that does not sleep. -/
theorem Tally.ran {c : Prop} {x : Except Halt (Progress × Kernel)}
    (h : Tally n s.kernel s.sleep) (ht : s.sleep t = none)
    (hx : ∀ a b, s.kernel.Owes a b → Meets anyHalt (SettlesIf c a b) x) :
    Meets anyHalt (fun r => (r.1.refusals = 0 ↔ c) ∧
      Tally (n + r.1.refusals) r.2.kernel r.2.sleep) (x >>= fun r => .ok (s.settle t r)) := by
  obtain ⟨T, hmem, hT, ho⟩ := h.other t
  rw [ht] at ho
  refine (hx _ _ ho).bind fun r hr => ?_
  rw [Meets.ok_iff, settle_refusals]
  refine ⟨hr.1, Tally.settle hmem hT ?_⟩
  have hcomm : ∀ a, n + a + (none : Option Sleep).elim 0 Sleep.uninserted + r.1.refusals =
      n + r.1.refusals + a := by
    intro a
    rw [Option.elim_none]
    omega
  have h' := hr.2
  rw [hcomm] at h'
  convert h' using 2
  rw [Option.elim_none]
  omega

/-- One step of the system. -/
theorem exec_tally (h : Tally n s.kernel s.sleep) (hal : Allowed s op) :
    Meets anyHalt (fun r => (r.1.refusals = 0 ↔ Resolves s (op, r.1)) ∧
      Tally (n + r.1.refusals) r.2.kernel r.2.sleep) (exec s op) := by
  have hquiet : ∀ k' : Kernel, s.kernel.SameTally k' →
      ((.done : Outcome).refusals = 0 ↔ True) ∧
        Tally (n + (.done : Outcome).refusals) k' s.sleep :=
    fun _ hk => ⟨⟨fun _ => trivial, fun _ => rfl⟩, h.same hk⟩
  cases op with
  | build p v => exact (buildProcess_tally p v).bind fun a ha => hquiet _ ha
  | run op =>
    cases op with
    | switch p => exact hquiet _ (asActivate_tally (k := { s.kernel with curproc := p }))
    | fault faulttype va =>
      obtain ⟨p, hp⟩ := Option.isSome_iff_exists.mp hal.1
      have ht : s.sleep (s.kernel.curproc.getD 0) = none := by
        have hnone := hal.2
        rw [caller, hp, Option.bind_some] at hnone
        rw [hp, Option.getD_some]
        exact Option.isNone_iff_eq_none.mp hnone
      exact h.ran ht fun a b ho => faultBegin_owes ho faulttype
    | allocKpages t npages =>
      have ht : s.sleep t = none := Option.isNone_iff_eq_none.mp hal.1.2.1
      exact h.ran ht fun a b ho =>
        (requestBegin_owes .kernel ho npages).mono fun _ => Settles.settlesIf
    | freeKpages addr => exact (freeppages_tally _).bind fun k hk => hquiet _ hk
    | destroy p => exact (asDestroy_tally p).bind fun k hk => hquiet _ hk
    | wake t =>
      obtain ⟨w, hw⟩ := Option.isSome_iff_exists.mp hal.1
      have hdisp : s.kernel.SameTally (Conc.dispatch s.kernel t) :=
        asActivate_tally (k := { s.kernel with
          curproc := if (s.kernel.procs t).isSome then some t else none })
      obtain ⟨T, hmem, hT, ho⟩ := h.other t
      rw [hw] at ho
      unfold exec Conc.exec
      dsimp only
      rw [hw]
      refine (wake_owes (hdisp.owes ho)).bind fun r hr => ?_
      rw [Meets.ok_iff, settle_refusals, hr.1]
      exact ⟨⟨fun _ => trivial, fun _ => rfl⟩, Tally.settle hmem hT hr.2⟩

variable {tr : List (PagingOp × Outcome)} {s₀ : Conc}

/-- A run : the sums are off by the threads inside `vm_fault` and the refused faults, and
the run has refused none exactly if all its faults could be resolved. -/
theorem run_tally (h₀ : Tally 0 s₀.kernel s₀.sleep) (hrun : Run Step s₀ tr s) :
    Tally (refusals tr) s.kernel s.sleep ∧
      (refusals tr = 0 → Run (guarded Resolves Step) s₀ tr s) := by
  refine hrun.trace_induct (I := fun tr (s : Conc) => Tally (refusals tr) s.kernel s.sleep ∧
    (refusals tr = 0 → Run (guarded Resolves Step) s₀ tr s)) ⟨h₀, fun _ => .start⟩ ?_
  rintro tr s ⟨op, out⟩ s' - ⟨ht, hrun⟩ ⟨hal, he⟩
  obtain ⟨hres, ht'⟩ := (exec_tally ht hal).of_ok he
  have hcons : refusals ((op, out) :: tr) = refusals tr + out.refusals := Nat.add_comm _ _
  rw [hcons]
  refine ⟨ht', fun h0 => ?_⟩
  exact (hrun (by omega)).snoc ⟨⟨hal, he⟩, hres.mp (show out.refusals = 0 by omega)⟩

theorem refusals_of_guarded (h₀ : Tally 0 s₀.kernel s₀.sleep)
    (hrun : Run (guarded Resolves Step) s₀ tr s) : refusals tr = 0 := by
  refine hrun.trace_induct (I := fun tr _ => refusals tr = 0) rfl ?_
  rintro tr s ⟨op, out⟩ s' hrun h0 ⟨⟨hal, he⟩, hres⟩
  have ht := (run_tally h₀ hrun.of_guarded).1
  have hout : out.refusals = 0 := ((exec_tally ht hal).of_ok he).1.mpr hres
  calc refusals ((op, out) :: tr) = refusals tr + out.refusals := Nat.add_comm _ _
    _ = 0 := by omega

/-- When no thread is inside `vm_fault`, only the refused faults are owed. -/
theorem Tally.of_finished (h : Tally n s.kernel s.sleep) (hf : Finished s) :
    s.kernel.Owes n n := by
  obtain ⟨T, -, ho⟩ := h
  have hzero : ∀ f : Sleep → ℕ, (∀ w, w.uninserted = 0 → f w = 0) → asleep T s.sleep f = 0 := by
    intro f hf0
    refine Finset.sum_eq_zero fun t _ => ?_
    cases hw : s.sleep t with
    | none => rfl
    | some w => exact hf0 w (hf t w hw)
  have hunfound : ∀ w : Sleep, w.uninserted = 0 → w.unfound = 0 := by
    rintro (⟨req, victim, swapIndex⟩ | _ | _) h0
    · exact h0
    · rfl
    · rfl
  rw [hzero _ fun _ h0 => h0, hzero _ hunfound] at ho
  exact ho

theorem tally_of_boot {ramsize firstfree : ℕ} {s₀ : Sys} (h : Sys.Boot ramsize firstfree s₀) :
    Tally 0 (Conc.ofSys s₀).kernel (Conc.ofSys s₀).sleep := by
  obtain ⟨coremap, ram, swapfile, ioError, -, -, rfl⟩ := h
  exact ⟨∅, fun _ _ => rfl, ⟨rfl, rfl, rfl⟩⟩

/-! ## Runs of one thread -/

/-- The thread that an operation runs, which may fall asleep in it. -/
def runner (s : Conc) : PagingOp → Option ℕ
  | .build _ _ => none
  | .run (.wake t) => some t
  | .run op => caller s op

/-- The other threads sleep on. -/
theorem exec_sleep (hal : Allowed s op) :
    Meets anyHalt (fun r => ∀ t, runner s op ≠ some t → r.2.sleep t = s.sleep t) (exec s op) := by
  have hother : ∀ {t : ℕ} (r : Progress × Kernel) {u : ℕ}, some t ≠ some u →
      (s.settle t r).2.sleep u = s.sleep u := by
    rintro t ⟨pr, k⟩ u hne
    have hut : u ≠ t := fun h => hne (congrArg some h.symm)
    cases pr <;> exact update_of_ne hut _ _
  cases op with
  | build p v => exact (Meets.any _).bind fun _ _ _ _ => rfl
  | run op =>
    cases op with
    | switch p => exact fun _ _ => rfl
    | fault faulttype va =>
      obtain ⟨p, hp⟩ := Option.isSome_iff_exists.mp hal.1
      have hrunner : runner s (.run (.fault faulttype va)) = some (s.kernel.curproc.getD 0) := by
        rw [hp]
        exact hp
      rw [hrunner]
      exact (Meets.any _).bind fun r _ _ hne => hother r hne
    | allocKpages t npages => exact (Meets.any _).bind fun r _ _ hne => hother r hne
    | freeKpages addr | destroy p => exact (Meets.any _).bind fun _ _ _ _ => rfl
    | wake t =>
      unfold exec Conc.exec
      dsimp only
      cases s.sleep t with
      | none => exact fun _ _ => rfl
      | some w => exact (Meets.any _).bind fun r _ _ hne => hother r hne

/-- The step of an allowed operation, for concrete runs in which the thread of process `1` is
the only one that sleeps. -/
def next (s : Conc) (op : PagingOp) : Option ((PagingOp × Outcome) × Conc) :=
  if Allowed s op ∧ ∀ t ∈ runner s op, t = 1 then
    (exec s op).toOption.map fun r => ((op, r.1), r.2)
  else none

theorem step_of_next {ev : PagingOp × Outcome} (h : next s op = some (ev, s')) :
    Step s ev s' ∧ ∀ t, t ≠ 1 → s'.sleep t = s.sleep t := by
  obtain ⟨hal, r, he, hr⟩ := ok_of_guard_map h
  cases hr
  exact ⟨⟨hal.1, he⟩, fun t hne =>
    (exec_sleep hal.1).of_ok he t fun hrun => hne (hal.2 t hrun)⟩

theorem run_of_execute {ops : List PagingOp} (h₀ : ∀ t, s₀.sleep t = none)
    (h : execute next [] s₀ ops = some (tr, s)) (h1 : s.sleep 1 = none) :
    Run Step s₀ tr s ∧ Finished s := by
  have hrun := Run.of_execute h step_of_next
  have hawake : ∀ t, t ≠ 1 → s.sleep t = none := by
    refine hrun.invariant (I := fun s => ∀ t, t ≠ 1 → s.sleep t = none) (fun t _ => h₀ t) ?_
    exact fun _ _ _ hs hst t hne => (hst.2 t hne).trans (hs t hne)
  refine ⟨hrun.mono fun _ _ _ hst => hst.1, fun t w hw => ?_⟩
  by_cases ht : t = 1
  · rw [ht, h1] at hw
    cases hw
  · rw [hawake t ht] at hw
    cases hw

end Paging

/-! ## The sums -/

/-- After every run in which each fault is finished and the counters have not overflowed, the
printed numbers add up exactly if no fault of the run was refused. -/
theorem stats_add_up_iff {ramsize firstfree : ℕ} {s₀ : Sys} {s : Conc}
    {tr : List (PagingOp × Outcome)} (hboot : Sys.Boot ramsize firstfree s₀)
    (hrun : Run Paging.Step (.ofSys s₀) tr s) (hfin : Paging.Finished s)
    (hlt : s.kernel.vmstats .tlbFault < 2 ^ 31) :
    s.kernel.StatsAddUp ↔ Run (guarded Paging.Resolves Paging.Step) (.ofSys s₀) tr s := by
  have h₀ := Paging.tally_of_boot hboot
  obtain ⟨htally, hguard⟩ := Paging.run_tally h₀ hrun
  rw [(htally.of_finished hfin).addUp_iff hlt]
  constructor
  · rintro ⟨h0, -⟩
    exact hguard h0
  · intro hg
    have h0 := Paging.refusals_of_guarded h₀ hg
    exact ⟨h0, h0⟩

/-- A process touches its stack, and reads a byte of its data from the file. -/
theorem stats_add_up_iff_small : ∃ tr s, Run Paging.Step (.ofSys (.small 8)) tr s ∧
    Paging.Finished s ∧ s.kernel.vmstats .tlbFault = 2 ∧
      Run (guarded Paging.Resolves Paging.Step) (.ofSys (.small 8)) tr s := by
  have h : (execute Paging.next [] (.ofSys (.small 8)) [.build 1 Sys.smallFile,
      .run (.fault .write 0x7ffffffc), .run (.fault .read 0x10000000), .run (.wake 1)]).map
      (fun r => decide (r.2.sleep 1 = none ∧ r.2.kernel.vmstats .tlbFault = 2 ∧
          r.2.kernel.reported .tlbFault = 2 ∧ r.2.kernel.reported .tlbFaultFree = 2 ∧
          r.2.kernel.reported .tlbFaultReplace = 0 ∧ r.2.kernel.reported .tlbReload = 0 ∧
          r.2.kernel.reported .pageFaultZero = 1 ∧ r.2.kernel.reported .pageFaultDisk = 1 ∧
          r.2.kernel.reported .pageFaultElf = 1 ∧ r.2.kernel.reported .pageFaultSwap = 0)) =
      some true := by
    decide +kernel
  obtain ⟨⟨tr, s⟩, he, hd⟩ := Option.map_eq_some_iff.mp h
  obtain ⟨hs, hf, h1, h2, h3, h4, h5, h6, h7, h8⟩ := of_decide_eq_true hd
  obtain ⟨hrun, hfin⟩ := Paging.run_of_execute (fun _ => rfl) he hs
  refine ⟨tr, s, hrun, hfin, hf, (stats_add_up_iff (Sys.small_boot (by decide) (by decide)) hrun
    hfin (by rw [hf]; decide)).mp ⟨?_, ?_, ?_⟩⟩
  · rw [h1, h2, h3]
    rfl
  · rw [h1, h4, h5, h6]
    rfl
  · rw [h6, h7, h8]
    rfl

/-- A process reads its text and then writes to it. The second fault is counted, and
`sys__exit` ends the process before anything else is : two TLB faults are reported, one of
them with a free slot and none with a replaced one. -/
theorem stats_refused_small : ∃ tr s, Run Paging.Step (.ofSys (.small 8)) tr s ∧
    Paging.Finished s ∧ s.kernel.reported .tlbFault = 2 ∧
      s.kernel.reported .tlbFaultFree = 1 ∧ s.kernel.reported .tlbFaultReplace = 0 ∧
      ¬s.kernel.StatsAddUp := by
  have h : (execute Paging.next [] (.ofSys (.small 8)) [.build 1 Sys.smallFile,
      .run (.fault .read 0x400000), .run (.wake 1), .run (.fault .readonly 0x400000)]).map
      (fun r => decide (r.2.sleep 1 = none ∧ r.2.kernel.reported .tlbFault = 2 ∧
        r.2.kernel.reported .tlbFaultFree = 1 ∧ r.2.kernel.reported .tlbFaultReplace = 0)) =
      some true := by
    decide +kernel
  obtain ⟨⟨tr, s⟩, he, hd⟩ := Option.map_eq_some_iff.mp h
  obtain ⟨hs, h1, h2, h3⟩ := of_decide_eq_true hd
  obtain ⟨hrun, hfin⟩ := Paging.run_of_execute (fun _ => rfl) he hs
  refine ⟨tr, s, hrun, hfin, h1, h2, h3, fun hadd => ?_⟩
  have hslots := hadd.slots
  rw [h1, h2, h3] at hslots
  cases hslots

end OS161
