import OS161.CopyInOut
import OS161.Exact
import OS161.FlatMemory

/-!
# Copies through the TLB

In the running kernel the copies of `copyinout.c` reach user memory through the TLB and `vm_fault`
(`tlbPort`). A fault that `vm_fault` returns an error for would take `mips_trap` to `copyfail`. But
for a process with an address space `vm_fault` never returns one (`kernelAccess_does`) : it resolves
the fault, or it calls `sys__exit`, also for a fault of the kernel.

So a copy comes back without `EFAULT`, or the process exits in it, or the kernel panics for lack of
memory (`CopyEnd`), and no range that has a bad address is reported as such (`bad_pointer_iff`).
-/

namespace OS161

open Function

/-! ## User memory through the TLB -/

/-- An access of the kernel to user memory, started again after each fault that `vm_fault`
resolves. -/
def kernelAccess (write : Bool) (va : ℕ) : ℕ → Call Empty CopyStop Kernel ℕ
  | 0 => Call.fail (.halted .hang)
  | fuel + 1 => fun k =>
    match k.tlb.translate write va with
    | .inr paddr => .ok (.ok paddr, k)
    | .inl faulttype =>
      match vmFault k faulttype va with
      | .error h => .ok (.error (.halted h), k)
      | .ok (.ret none, k) => kernelAccess write va fuel k
      | .ok (.ret (some _), k) => .ok (.error .fatal, k)
      | .ok (.exit status, k) => .ok (.error (.exited status), { k with curproc := none })

/-- Loads and stores of the kernel to the memory of the current process. -/
def tlbPort : UserPort Kernel where
  load va := do
    let paddr ← kernelAccess false va accessFuel
    let k ← Call.get
    pure (k.ram paddr)
  store va b := do
    let paddr ← kernelAccess true va accessFuel
    Call.modify fun k => { k with ram := update k.ram paddr b }

/-- The process `p` runs, with its address space. -/
structure RunsProcess (p : ℕ) (pr : Proc) (k : Kernel) : Prop where
  inv : k.Inv
  curproc : k.curproc = some p
  proc : k.procs p = some pr

/-- What ends an access of the kernel : the process exits, or the kernel panics. -/
def StopEnd : CopyStop → Kernel → Prop
  | .fatal, _ => False
  | .exited status, k => status = -1 ∧ k.curproc = none
  | .halted h, _ => h.Resource

/-- How an access of the kernel ends. -/
def AccessEnd (p : ℕ) (pr : Proc) {α : Type} : Except CopyStop α → Kernel → Prop
  | .ok _, k => RunsProcess p pr k
  | .error e, k => StopEnd e k

section Access

variable {p va : ℕ} {pr : Proc} {k k' : Kernel} {write : Bool} {ty : FaultType}

theorem Tlb.translate_ne_other (tlb : Tlb) : tlb.translate write va ≠ .inl .other := by
  unfold Tlb.translate
  cases tlb.probe va with
  | none => cases write <;> simp
  | some i => cases write <;> dsimp only <;> split_ifs <;> simp

/-- A fault of a process that has an address space is resolved, or the process exits. -/
theorem RunsProcess.fault (h : RunsProcess p pr k) (hty : ty ≠ .other) (va : ℕ) :
    Meets Halt.Resource (fun r => match r with
      | (.ret none, k') => RunsProcess p pr k' ∧ ty ≠ .readonly ∧ (va < userspacetop →
          ∀ write ty', k'.tlb.translate write va = .inl ty' → ty' = .readonly)
      | (.ret (some _), _) => False
      | (.exit status, _) => status = -1) (vmFault k ty va) := by
  refine (vmFault_spec h.inv.owned h.inv.procs ty va).mono ?_
  rintro ⟨r, k'⟩ hf
  have hkeeps := (h.inv.hit .tlbFault).trans (hf.keeps (h.inv.hit .tlbFault).inv)
  have hcur := (hf.owned (h.inv.hit .tlbFault).inv.owned).2.2
  match r, hf with
  | .ret none, ⟨hrw, L, fp, k₁, stats, hat, hres, hr⟩ =>
    refine ⟨⟨hkeeps.inv, hcur.trans h.curproc, (congrFun hkeeps.procs p).trans h.proc⟩, ?_, ?_⟩
    · rintro rfl
      rcases hrw with hrw | hrw <;> cases hrw
    intro hva write ty' ht
    have hshape := (hres.keeps hat (h.inv.hit .tlbFault).inv).inv.shaped
    subst hr
    exact Tlb.translate_insert hshape hva rfl rfl ht
  | .ret (some e), ⟨⟨_, hl⟩, _⟩ =>
    rcases hl with rfl | ⟨_, hnone⟩
    · exact hty rfl
    · change k.curproc.bind k.procs = none at hnone
      rw [h.curproc] at hnone
      cases h.proc.symm.trans hnone
  | .exit status, ⟨⟨hst, _⟩, _⟩ => exact hst

/-- One attempt. After a fault that is resolved comes the next one, which can fault only for want of
the right to write. -/
theorem kernelAccess_succ (h : RunsProcess p pr k) (hva : va < userspacetop) {fuel : ℕ}
    (hnext : ∀ k' ty, k.tlb.translate write va = .inl ty → ty ≠ .readonly → RunsProcess p pr k' →
      (∀ ty', k'.tlb.translate write va = .inl ty' → ty' = .readonly) →
      (kernelAccess write va fuel).Does (fun _ => False) k' fun r k' => AccessEnd p pr r k') :
    (kernelAccess write va (fuel + 1)).Does (fun _ => False) k fun r k' => AccessEnd p pr r k' := by
  unfold Call.Does kernelAccess
  cases ht : k.tlb.translate write va with
  | inr paddr => exact h
  | inl ty =>
    have hty : ty ≠ .other := by
      rintro rfl
      exact Tlb.translate_ne_other k.tlb ht
    have hfault := h.fault hty va
    dsimp only
    cases hv : vmFault k ty va with
    | error e => exact hfault.of_error hv
    | ok r =>
      have hr := hfault.of_ok hv
      match r, hr with
      | (.ret none, k'), ⟨hrun, hty, hro⟩ => exact hnext k' ty ht hty hrun (hro hva write)
      | (.exit status, k'), hr => exact ⟨hr, rfl⟩

theorem kernelAccess_does (h : RunsProcess p pr k) (hva : va < userspacetop) (write : Bool) :
    (kernelAccess write va accessFuel).Does (fun _ => False) k fun r k' => AccessEnd p pr r k' := by
  refine kernelAccess_succ h hva fun k₁ _ _ _ h₁ hro₁ => ?_
  exact kernelAccess_succ h₁ hva fun _ ty ht hty _ _ => absurd (hro₁ ty ht) hty

/-- An access to a page that is not in the TLB, at an address outside the segments, ends the
process. -/
theorem kernelAccess_exits (write : Bool) (h : RunsProcess p pr k)
    (hseg : asGetSegmentType pr.pAddrspace va = .ok none)
    (hmiss : k.tlb.probe va = none) : ∃ k', kernelAccess write va accessFuel k =
      .ok (.error (.exited (-1)), k') := by
  obtain ⟨ty, hty, ht⟩ : ∃ ty, (ty = .read ∨ ty = .write) ∧
      k.tlb.translate write va = .inl ty := by
    refine ⟨if write then .write else .read, ?_, by rw [Tlb.translate, hmiss]⟩
    cases write
    · exact Or.inl rfl
    · exact Or.inr rfl
  obtain ⟨r, hlook, hpost⟩ :=
    faultLookup_spec (k := vmstatsHit k .tlbFault) (h.inv.hit .tlbFault).inv.procs ty va
  have hr : r = .inl (.exit (-1)) := by
    match r, hpost with
    | .inr fp, ⟨_, L, hat⟩ =>
      have hpr : pr = fp.proc := by
        have hp : p = fp.p := Option.some_inj.mp (h.curproc.symm.trans hat.curproc)
        exact Option.some_inj.mp (h.proc.symm.trans (hp ▸ hat.proc))
      have hsome := asGetSegmentType_of_has (a := va) hat.built.1
      rw [← hpr, hseg, hat.segType] at hsome
      cases hsome
    | .inl (.exit status), ⟨hst, _⟩ => rw [hst]
    | .inl (.ret err), ⟨_, hl⟩ =>
      rcases hl with rfl | ⟨_, hnone⟩
      · rcases hty with hty | hty <;> cases hty
      · change k.curproc.bind k.procs = none at hnone
        rw [h.curproc] at hnone
        cases h.proc.symm.trans hnone
  have hfault : vmFault k ty va = .ok (.exit (-1), vmstatsHit k .tlbFault) := by
    rw [vmFault, hlook, hr, ok_bind]
  refine ⟨{ vmstatsHit k .tlbFault with curproc := none }, ?_⟩
  change kernelAccess write va (2 + 1) k = _
  simp only [kernelAccess, ht, hfault]

theorem RunsProcess.store (h : RunsProcess p pr k) (paddr : ℕ) (b : UInt8) :
    RunsProcess p pr { k with ram := update k.ram paddr b } := by
  have hkeeps : k.Keeps { k with ram := update k.ram paddr b } :=
    (Kernel.Keeps.refl h.inv).congr rfl rfl rfl rfl rfl
  exact ⟨hkeeps.inv, h.curproc, h.proc⟩

/-- A load or a store. -/
theorem tlbPort_load (h : RunsProcess p pr k) (hva : va < userspacetop) :
    (tlbPort.load va).Does (fun _ => False) k fun r k' => AccessEnd p pr r k' :=
  (kernelAccess_does h hva false).bind (fun _ _ he => he) fun _ _ hk' => hk'

theorem tlbPort_store (h : RunsProcess p pr k) (hva : va < userspacetop) (b : UInt8) :
    (tlbPort.store va b).Does (fun _ => False) k fun r k' => AccessEnd p pr r k' :=
  (kernelAccess_does h hva true).bind (fun _ _ he => he) fun paddr _ hk' => hk'.store paddr b

end Access

/-! ## Copies -/

/-- How a copy ends : it returns and the process goes on, without an error for a fault; or the
process exits in it; or the kernel panics. -/
def CopyEnd (p : ℕ) (pr : Proc) {α : Type} :
    Except CopyStop (Except Errno α) → CopyState Kernel → Prop
  | .ok r, s => r ≠ .error Errno.EFAULT ∧ s.badfaultfunc = false ∧ RunsProcess p pr s.user
  | .error e, s => StopEnd e s.user

section Copies

variable {α : Type} {p : ℕ} {pr : Proc} {s : CopyState Kernel} {lim : ℕ}
  {load : ℕ → Copy Kernel UInt8} {store : ℕ → UInt8 → Copy Kernel Unit}
  {access : Call Empty CopyStop Kernel α} {va : ℕ} {m : Copy Kernel (Except Errno α)}

/-- An access that succeeds, or ends the process or the kernel. -/
abbrev GoesOn (p : ℕ) (pr : Proc) (m : Copy Kernel α) (s : CopyState Kernel) : Prop :=
  m.Does (fun _ => False) s fun r s' => AccessEnd p pr r s'.user

theorem userAccessAt_goesOn {a : ℕ}
    (h : access.Does (fun _ => False) s.user fun r k' => AccessEnd p pr r k') :
    GoesOn p pr (userAccessAt a access) s := by
  refine Meets.bind h fun r hr => ?_
  match r, hr with
  | (.ok a, k'), hr => exact hr
  | (.error (.exited status), k'), hr => exact hr
  | (.error (.halted e), k'), hr => exact hr

/-- The loads and stores of a copy of `lim` bytes. -/
structure GoingAccess (p : ℕ) (pr : Proc) (lim : ℕ) (load : ℕ → Copy Kernel UInt8)
    (store : ℕ → UInt8 → Copy Kernel Unit) : Prop where
  load : ∀ i < lim, ∀ s, RunsProcess p pr s.user → GoesOn p pr (load i) s
  store : ∀ i < lim, ∀ b s, RunsProcess p pr s.user → GoesOn p pr (store i b) s

theorem goingAccess_in (hlim : va + lim ≤ userspacetop) :
    GoingAccess p pr lim (fun i => userLoad tlbPort (va + i)) bufStore where
  load i hi s hs := userAccessAt_goesOn (tlbPort_load hs (by omega))
  store i hi b s hs := hs

theorem goingAccess_out (hlim : va + lim ≤ userspacetop) :
    GoingAccess p pr lim bufLoad fun i => userStore tlbPort (va + i) where
  load i hi s hs := hs
  store i hi b s hs := userAccessAt_goesOn (tlbPort_store hs (by omega) b)

namespace GoingAccess

variable {i : ℕ}

theorem copyByte (h : GoingAccess p pr lim load store) (hi : i < lim)
    (hs : RunsProcess p pr s.user) :
    GoesOn p pr (copyByte load store i) s :=
  (h.load i hi s hs).bind (fun _ _ he => he) fun c s₁ hs₁ =>
    (h.store i hi c s₁ hs₁).bind (fun _ _ he => he) fun _ _ hs₂ => hs₂

theorem memcpy (h : GoingAccess p pr lim load store) (hs : RunsProcess p pr s.user) :
    GoesOn p pr (memcpy load store lim) s := by
  refine Call.Does.forRange (I := fun _ (s : CopyState Kernel) => RunsProcess p pr s.user)
    (R := fun r (s' : CopyState Kernel) => AccessEnd p pr r s'.user) (fun i hi s hs => ?_)
    (fun _ hs => hs) hs
  exact (h.copyByte hi hs).bind (fun _ _ he => he) fun _ _ hs' => hs'

/-- A string that user space does not cut. -/
theorem copystrLoop (h : GoingAccess p pr lim load store) {maxlen stoplen : ℕ}
    (hle : maxlen ≤ stoplen) : ∀ (fuel i : ℕ) (s : CopyState Kernel), fuel + i ≤ lim →
      RunsProcess p pr s.user →
        (copystrLoop load store maxlen stoplen fuel i).Does (fun _ => False) s
        fun r s' => AccessEnd p pr r s'.user ∧ r ≠ .ok (.error Errno.EFAULT)
  | 0, _, _, _, hs => by
    refine ⟨hs, fun heq => ?_⟩
    rw [if_neg (not_lt.mpr hle)] at heq
    exact absurd (Except.error.inj (Except.ok.inj heq)) (by decide)
  | fuel + 1, i, s, hlim, hs => by
    refine (h.copyByte (by omega) hs).bind (fun e s' he => ⟨he, by simp⟩) fun c s' hs' => ?_
    split_ifs
    · exact ⟨hs', by simp⟩
    · exact copystrLoop h hle fuel (i + 1) s' (by omega) hs'

end GoingAccess

/-- A protected copy in which no fault is left. -/
theorem protect_copyEnd
    (h : m.Does (fun _ => False) { s with badfaultfunc := true } fun r s' =>
      AccessEnd p pr r s'.user ∧ r ≠ .ok (.error Errno.EFAULT)) :
    (protect m).Does (fun _ => False) s fun r s' => CopyEnd p pr r s' := by
  refine Call.does_modify_bind.mpr (Call.Does.attempt_bind h fun r s' hr => ?_)
  match r, hr with
  | .ok r, ⟨hs', hne⟩ => exact ⟨fun heq => hne (congrArg Except.ok heq), rfl, hs'⟩
  | .error (.exited status), ⟨he, _⟩ => exact he
  | .error (.halted e), ⟨he, _⟩ => exact he

variable {a n : BitVec 32}

/-- A range in user space is not cut. -/
theorem copycheck_inside (hn : n.toNat ≠ 0) (ha : a.toNat + n.toNat ≤ userspacetop) :
    copycheck a n = .ok n := by
  have hust : userspacetop = 2 ^ 31 := rfl
  have hstop : min n.toNat (userspacetop - a.toNat) = n.toNat := by omega
  have hbad : ¬(userspacetop ≤ a.toNat ∨ 2 ^ 32 < a.toNat + n.toNat) := by omega
  rw [copycheck_eq a n hn, if_neg hbad, hstop, BitVec.ofNat_toNat, BitVec.setWidth_eq]

theorem copyBlock_copyEnd (hn : n.toNat ≠ 0) (ha : a.toNat + n.toNat ≤ userspacetop)
    (h : GoingAccess p pr n.toNat load store) (hs : RunsProcess p pr s.user) :
    ∃ r s', copyBlock load store a n s = .ok (r, s') ∧ CopyEnd p pr r s' := by
  unfold copyBlock
  rw [(blockCheck_iff hn).mpr ha]
  refine (protect_copyEnd (s := s) ?_).exists_ok
  refine (h.memcpy (s := { s with badfaultfunc := true }) hs).bind (fun e s' he => ⟨he, by simp⟩) ?_
  exact fun u s' hs' => ⟨hs', by simp⟩

theorem copyString_copyEnd (hn : n.toNat ≠ 0) (ha : a.toNat + n.toNat ≤ userspacetop)
    (h : GoingAccess p pr n.toNat load store) (hs : RunsProcess p pr s.user) :
    ∃ r s', copyString load store a n s = .ok (r, s') ∧ CopyEnd p pr r s' := by
  unfold copyString
  rw [copycheck_inside hn ha]
  refine (protect_copyEnd (s := s) ?_).exists_ok
  exact h.copystrLoop le_rfl _ 0 { s with badfaultfunc := true } (by omega) hs

theorem protect_exits {s' : CopyState Kernel} {status : ℤ}
    (h : m { s with badfaultfunc := true } = .ok (.error (.exited status), s')) :
    protect m s = .ok (.error (.exited status), s') := by
  unfold protect
  rw [Call.modify_bind_apply, Call.bind_of_ok (Call.attempt_of_ok h)]
  rfl

/-- A block whose first byte ends the process. -/
theorem copyBlock_exits (hn : n.toNat ≠ 0) (ha : a.toNat + n.toNat ≤ userspacetop)
    (h : ∃ s', copyByte load store 0 { s with badfaultfunc := true } =
      .ok (.error (.exited (-1)), s')) :
    ∃ s', copyBlock load store a n s = .ok (.error (.exited (-1)), s') := by
  obtain ⟨s', hbyte⟩ := h
  obtain ⟨len, hlen⟩ := Nat.exists_eq_succ_of_ne_zero hn
  refine ⟨s', ?_⟩
  unfold copyBlock
  rw [(blockCheck_iff hn).mpr ha]
  refine protect_exits (Call.bind_of_error ?_)
  rw [memcpy, hlen, List.range_succ_eq_map, Call.forEach]
  exact Call.bind_of_error (Call.bind_of_error hbyte)

/-- A string whose first byte ends the process. -/
theorem copyString_exits (hn : n.toNat ≠ 0) (ha : a.toNat + n.toNat ≤ userspacetop)
    (h : ∃ s', copyByte load store 0 { s with badfaultfunc := true } =
      .ok (.error (.exited (-1)), s')) :
    ∃ s', copyString load store a n s = .ok (.error (.exited (-1)), s') := by
  obtain ⟨s', hbyte⟩ := h
  obtain ⟨len, hlen⟩ := Nat.exists_eq_succ_of_ne_zero hn
  refine ⟨s', ?_⟩
  unfold copyString
  rw [copycheck_inside hn ha]
  refine protect_exits ?_
  rw [copystr, Nat.min_self, hlen, copystrLoop]
  exact Call.bind_of_error hbyte

theorem userAccessAt_exits (va : ℕ)
    (h : ∃ k', access s.user = .ok (.error (.exited (-1)), k')) :
    ∃ s', userAccessAt va access s = .ok (.error (.exited (-1)), s') := by
  obtain ⟨k', hk'⟩ := h
  refine ⟨{ s with user := k', userTouched := va :: s.userTouched }, ?_⟩
  rw [userAccessAt, hk', ok_bind]
  rfl

/-- The first byte of a copy from an address outside the segments. -/
theorem copyByte_in_exits (h : RunsProcess p pr s.user)
    (hseg : asGetSegmentType pr.pAddrspace va = .ok none) (hmiss : s.user.tlb.probe va = none) :
    ∃ s', copyByte (fun i => userLoad tlbPort (va + i)) bufStore 0 s =
      .ok (.error (.exited (-1)), s') := by
  have hload : ∃ k', tlbPort.load va s.user = .ok (.error (.exited (-1)), k') :=
    (kernelAccess_exits false h hseg hmiss).imp fun _ hk' => Call.bind_of_error hk'
  exact (userAccessAt_exits (va + 0) hload).imp fun _ hs' => Call.bind_of_error hs'

/-- The first byte of a copy to an address outside the segments. -/
theorem copyByte_out_exits (h : RunsProcess p pr s.user)
    (hseg : asGetSegmentType pr.pAddrspace va = .ok none) (hmiss : s.user.tlb.probe va = none) :
    ∃ s', copyByte bufLoad (fun i => userStore tlbPort (va + i)) 0 s =
      .ok (.error (.exited (-1)), s') := by
  have hstore : ∃ k', tlbPort.store va (s.buf 0) s.user = .ok (.error (.exited (-1)), k') :=
    (kernelAccess_exits true h hseg hmiss).imp fun _ hk' => Call.bind_of_error hk'
  have haccess := userAccessAt_exits (va + 0)
    (s := { s with bufTouched := 0 :: s.bufTouched }) hstore
  have hbuf : bufLoad 0 s = .ok (.ok (s.buf 0), { s with bufTouched := 0 :: s.bufTouched }) := rfl
  exact haccess.imp fun _ hs' => (Call.bind_of_ok hbuf).trans (Call.bind_of_error hs')

end Copies

/-! ## Bad pointers -/

/-- An address outside the segments or, for a copy to user memory, in the text segment. -/
def BadAddress (as : AddrSpace) (write : Bool) (a : ℕ) : Prop :=
  asGetSegmentType as a = .ok none ∨ write = true ∧ asGetSegmentType as a = .ok (some .text)

/-- The range has a bad address. -/
def BadRange (as : AddrSpace) (write : Bool) (va n : ℕ) : Prop :=
  ∃ a, va ≤ a ∧ a < va + n ∧ BadAddress as write a

/-- A string with room for `n` bytes at `va` has a bad address, up to its terminator. -/
def BadString (as : AddrSpace) (write : Bool) (str : ℕ → UInt8) (va n : ℕ) : Prop :=
  ∃ i < n, (∀ j < i, str j ≠ 0) ∧ BadAddress as write (va + i)

/-- The copy returns `EFAULT`, with `tm_badfaultfunc` cleared, and the process goes on with its
address space. -/
def ReportsFault (p : ℕ) (pr : Proc) {α : Type} (m : Copy Kernel (Except Errno α))
    (s : CopyState Kernel) : Prop :=
  ∃ s', m s = .ok (.ok (.error Errno.EFAULT), s') ∧ s'.badfaultfunc = false ∧
    s'.user.curproc = some p ∧ s'.user.procs p = some pr

theorem reportsFault_iff {p : ℕ} {pr : Proc} {α : Type} {m : Copy Kernel (Except Errno α)}
    {s : CopyState Kernel} (h : ∃ r s', m s = .ok (r, s') ∧ CopyEnd p pr r s') (bad : Prop) :
    (bad → ReportsFault p pr m s) ↔ ¬bad := by
  refine ⟨fun hreports hbad => ?_, fun hno hbad => absurd hbad hno⟩
  obtain ⟨s₁, heq, -⟩ := hreports hbad
  obtain ⟨r, s', heq', hend⟩ := h
  rw [heq] at heq'
  cases heq'
  exact hend.1 rfl

/-- The state in which the kernel begins a copy. -/
def Kernel.copyState (k : Kernel) (buf : ℕ → UInt8) : CopyState Kernel :=
  ⟨k, buf, false, [], []⟩

/-- In every state that is reached while a process runs, and for every range in user space : a bad
range, or string, is reported to the caller exactly if it is not one. What happens instead is that
the copy succeeds, or the process exits in it, or the kernel panics. It exits if the first address
is outside the segments and its page is not in the TLB. -/
theorem bad_pointer_iff {ramsize firstfree : ℕ} {s₀ s : Sys} {tr : List Event}
    (hb : Sys.Boot ramsize firstfree s₀) (hr : Run Sys.Step s₀ tr s) {p : ℕ} {pr : Proc}
    (hcur : s.kernel.curproc = some p) (hproc : s.kernel.procs p = some pr) (buf : ℕ → UInt8)
    {a n : BitVec 32} (hn : n.toNat ≠ 0) (ha : a.toNat + n.toNat ≤ userspacetop) :
    let c := s.kernel.copyState buf
    let as := pr.pAddrspace
    let str := fun i => flatMemory tr p (a.toNat + i)
    ((BadRange as false a.toNat n.toNat → ReportsFault p pr (copyin tlbPort a n) c) ↔
      ¬BadRange as false a.toNat n.toNat) ∧
    ((BadRange as true a.toNat n.toNat → ReportsFault p pr (copyout tlbPort a n) c) ↔
      ¬BadRange as true a.toNat n.toNat) ∧
    ((BadString as false str a.toNat n.toNat → ReportsFault p pr (copyinstr tlbPort a n) c) ↔
      ¬BadString as false str a.toNat n.toNat) ∧
    ((BadString as true buf a.toNat n.toNat → ReportsFault p pr (copyoutstr tlbPort a n) c) ↔
      ¬BadString as true buf a.toNat n.toNat) ∧
    ((∃ r s', copyin tlbPort a n c = .ok (r, s') ∧ CopyEnd p pr r s') ∧
      (∃ r s', copyout tlbPort a n c = .ok (r, s') ∧ CopyEnd p pr r s') ∧
      (∃ r s', copyinstr tlbPort a n c = .ok (r, s') ∧ CopyEnd p pr r s') ∧
      ∃ r s', copyoutstr tlbPort a n c = .ok (r, s') ∧ CopyEnd p pr r s') ∧
    (asGetSegmentType as a.toNat = .ok none → s.kernel.tlb.probe a.toNat = none →
      (∃ s', copyin tlbPort a n c = .ok (.error (.exited (-1)), s')) ∧
      (∃ s', copyout tlbPort a n c = .ok (.error (.exited (-1)), s')) ∧
      (∃ s', copyinstr tlbPort a n c = .ok (.error (.exited (-1)), s')) ∧
      ∃ s', copyoutstr tlbPort a n c = .ok (.error (.exited (-1)), s')) := by
  have hrunning : RunsProcess p pr (s.kernel.copyState buf).user :=
    ⟨(Sys.run_inv hb hr).kernel, hcur, hproc⟩
  have hin := copyBlock_copyEnd hn ha (goingAccess_in ha) hrunning
  have hout := copyBlock_copyEnd hn ha (goingAccess_out ha) hrunning
  have hinstr := copyString_copyEnd hn ha (goingAccess_in ha) hrunning
  have houtstr := copyString_copyEnd hn ha (goingAccess_out ha) hrunning
  refine ⟨reportsFault_iff hin _, reportsFault_iff hout _, reportsFault_iff hinstr _,
    reportsFault_iff houtstr _, ⟨hin, hout, hinstr, houtstr⟩, fun hseg hmiss => ?_⟩
  have hload := copyByte_in_exits (s := { s.kernel.copyState buf with badfaultfunc := true })
    hrunning hseg hmiss
  have hstore := copyByte_out_exits (s := { s.kernel.copyState buf with badfaultfunc := true })
    hrunning hseg hmiss
  exact ⟨copyBlock_exits hn ha hload, copyBlock_exits hn ha hstore, copyString_exits hn ha hload,
    copyString_exits hn ha hstore⟩

theorem bad_pointer_iff_small : ∃ tr s pr, Run Sys.Step (.small 4) tr s ∧
    s.kernel.procs 1 = some pr ∧ BadRange pr.pAddrspace false 0x500000 4 ∧
    ¬ReportsFault 1 pr (copyin tlbPort 0x500000#32 4#32) (s.kernel.copyState fun _ => 0) := by
  have heval : ((execute Sys.next [] (.small 4) [.build 1 Sys.smallFile]).bind fun r =>
      (r.2.kernel.procs 1).map fun pr => decide (r.2.kernel.curproc = some 1 ∧
        (asGetSegmentType pr.pAddrspace 0x500000).toOption = some none)) = some true := by
    decide +kernel
  obtain ⟨⟨tr, s⟩, hex, h⟩ := Option.bind_eq_some_iff.mp heval
  obtain ⟨pr, hpr, h⟩ := Option.map_eq_some_iff.mp h
  obtain ⟨hcur, hnone⟩ := of_decide_eq_true h
  have hrun := Run.of_execute hex Sys.step_of_next
  have hbad : BadRange pr.pAddrspace false 0x500000 4 :=
    ⟨0x500000, le_rfl, by decide, Or.inl (eq_ok_of_toOption hnone)⟩
  obtain ⟨hin, -⟩ := bad_pointer_iff (Sys.small_boot (by decide) (by decide)) hrun hcur hpr
    (fun _ => 0) (a := 0x500000#32) (n := 4#32) (by decide) (by decide)
  exact ⟨tr, s, pr, hrun, hpr, hbad, fun h => hin.mp (fun _ => h) hbad⟩

/-- `smallFile` has nothing at `0x500000`, and text at `0x400000`. The process exits in a copy from
there, and in a copy to there. -/
theorem bad_pointer_kills : ∃ tr s pr s₁ s₂, Run Sys.Step (.small 4) tr s ∧
    s.kernel.curproc = some 1 ∧ s.kernel.procs 1 = some pr ∧
    asGetSegmentType pr.pAddrspace 0x500000 = .ok none ∧
    asGetSegmentType pr.pAddrspace 0x400000 = .ok (some .text) ∧
    copyin tlbPort 0x500000#32 4#32 (s.kernel.copyState fun _ => 0) =
      .ok (.error (.exited (-1)), s₁) ∧
    copyout tlbPort 0x400000#32 4#32 (s.kernel.copyState fun _ => 0) =
      .ok (.error (.exited (-1)), s₂) := by
  have heval : ((execute Sys.next [] (.small 4) [.build 1 Sys.smallFile]).bind fun r =>
      (r.2.kernel.procs 1).bind fun pr =>
      (copyin tlbPort 0x500000#32 4#32 (r.2.kernel.copyState fun _ => 0)).toOption.bind fun r₁ =>
      (copyout tlbPort 0x400000#32 4#32 (r.2.kernel.copyState fun _ => 0)).toOption.map fun r₂ =>
        decide (r.2.kernel.curproc = some 1 ∧ r₁.1 = .error (.exited (-1)) ∧
          r₂.1 = .error (.exited (-1)) ∧
          (asGetSegmentType pr.pAddrspace 0x500000).toOption = some none ∧
          (asGetSegmentType pr.pAddrspace 0x400000).toOption = some (some .text))) =
      some true := by
    decide +kernel
  obtain ⟨⟨tr, s⟩, hex, h⟩ := Option.bind_eq_some_iff.mp heval
  obtain ⟨pr, hpr, h⟩ := Option.bind_eq_some_iff.mp h
  obtain ⟨⟨r₁, s₁⟩, h₁, h⟩ := Option.bind_eq_some_iff.mp h
  obtain ⟨⟨r₂, s₂⟩, h₂, h⟩ := Option.map_eq_some_iff.mp h
  obtain ⟨hcur, rfl, rfl, hnone, htext⟩ := of_decide_eq_true h
  exact ⟨tr, s, pr, s₁, s₂, .of_execute hex Sys.step_of_next, hcur, hpr, eq_ok_of_toOption hnone,
    eq_ok_of_toOption htext, eq_ok_of_toOption h₁, eq_ok_of_toOption h₂⟩

end OS161
