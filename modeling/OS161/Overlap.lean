import OS161.FlatMemory
import OS161.InFlight

/-!
# Accesses during a swap-out

`coremap_swapout` writes the victim to swap with the spinlock released, and the page stays in
memory for its owner until the write is done. `Overlap` takes the swap-out apart into the
steps between which the owner may run : the page is copied to the buffer of the device
(`swapOutCopy`), the device writes its buffer (`swapOutWrite`), the entry is set
(`swapoutSetEntry`), and the TLB entry is removed, after which the fault that asked for the
frame goes on (`Writeback.finish`). The steps may fall anywhere between the accesses of the
processes, also the last two, which the code makes one after the other under the spinlock.

An access that needs no frame does the same in two states that the processes cannot tell
apart (`Kernel.Shadow`, `Sys.exec_agree`), whatever is under way in one of them.
-/

namespace OS161

/-! ## The steps of a swap-out -/

/-- `swap_out` up to the sleep of `emu_write` : a slot is taken and the page is copied to the
buffer of the device. -/
def swapOutCopy (k : Kernel) (paddr : ℕ) : Except Halt (ℕ × (ℕ → UInt8) × Kernel) := do
  let k := vmstatsHit k .swapWrite
  kassert (paddr % pageSize = 0) "page_paddr % PAGE_SIZE == 0"
  match ← bitmapAlloc k.swap.swapmap with
  | none => .error (.panic "Out of swap space\n")
  | some (swapIndex, swapmap) =>
    .ok (swapIndex, fun o => k.ram (paddr + o),
      { k with swap := { k.swap with swapmap := swapmap } })

/-- The device has written its buffer, or reports an error, and `swap_out` returns. -/
def swapOutWrite (k : Kernel) (swapIndex : ℕ) (iobuf : ℕ → UInt8) : Except Halt Kernel :=
  if k.swap.ioError swapIndex then .error (.panic "Error swapping out\n")
  else
    let swapfile := moveBytes iobuf 0 k.swap.swapfile (swapIndex * pageSize) pageSize
    .ok { k with swap := { k.swap with swapfile := swapfile } }

/-- Nothing between the copy and the write is `swap_out`. -/
theorem swapOut_eq_copy_write (k : Kernel) (paddr : ℕ) : swapOut k paddr = (do
    let (swapIndex, iobuf, k) ← swapOutCopy k paddr
    let k ← swapOutWrite k swapIndex iobuf
    .ok (swapIndex, k)) := by
  unfold swapOut swapOutCopy
  generalize vmstatsHit k .swapWrite = k
  cases kassert (paddr % pageSize = 0) "page_paddr % PAGE_SIZE == 0" with
  | error e => rfl
  | ok u =>
    simp only [ok_bind]
    cases bitmapAlloc k.swap.swapmap with
    | error e => rfl
    | ok r =>
      cases r with
      | none => rfl
      | some r =>
        have hmove : moveBytes k.ram paddr = moveBytes (fun o => k.ram (paddr + o)) 0 := by
          funext dst start len a
          simp only [moveBytes, Nat.zero_add]
        simp only [ok_bind, swapOutWrite, hmove]
        split_ifs <;> rfl

/-- `coremap_swapout` from the second `spinlock_acquire` to `pt_set_entry`. -/
def swapoutSetEntry (k : Kernel) (f swapIndex : ℕ) : Except Halt Kernel := do
  let k := { k with coremap := k.coremap.setLock f false }
  let e ← deref (k.coremap.owner f)
  ptSetEntry k e 0 swapIndex .inSwap

/-- What is left of `coremap_swapout` is the removal of the TLB entry. -/
theorem coremapSwapoutEnd_eq_set_remove (k : Kernel) (f swapIndex : ℕ) :
    coremapSwapoutEnd k f swapIndex = (do
      let k ← swapoutSetEntry k f swapIndex
      tlbRemoveByPaddr k (f * pageSize)) := by
  unfold coremapSwapoutEnd swapoutSetEntry
  simp only [bind_assoc]

/-- How far a swap-out has got : the victim is locked, its page is in the buffer of the
device, the page is in its slot, the entry says so. -/
inductive OutStage
  | locked
  | copied (swapIndex : ℕ) (iobuf : ℕ → UInt8)
  | written (swapIndex : ℕ)
  | moved (swapIndex : ℕ)

/-- A swap-out under way, for the fault of a process on a page that is in swap or not
loaded. -/
structure Writeback where
  page : FaultPage
  va : ℕ
  swapped : Bool
  victim : ℕ
  stage : OutStage

/-- `vm_fault` up to the release of the spinlock in `coremap_swapout`, if it gets there. -/
def faultSwapout (k : Kernel) (faulttype : FaultType) (faultaddress : ℕ) :
    Except Halt (Option (Writeback × Kernel)) := do
  let k := vmstatsHit k .tlbFault
  match ← faultLookup k faulttype faultaddress with
  | .inl _ => .ok none
  | .inr fp =>
    if (k.pt fp.ptRow).ptStatus = .notLoaded ∨ (k.pt fp.ptRow).ptStatus = .inSwap then do
      let swapped := decide ((k.pt fp.ptRow).ptStatus = .inSwap)
      match ← coremapFindFreeframes k.coremap 1 with
      | some _ => .ok none
      | none => do
        let (f, writing, k) ← coremapSwapoutBegin k 1
        if writing then .ok (some (⟨fp, faultaddress, swapped, f, .locked⟩, k)) else .ok none
    else .ok none

namespace Writeback

/-- What the thread asked for. -/
def request (w : Writeback) : Request :=
  .page w.page w.va w.swapped

/-- The end of the swap-out : the thread that asked for the frame gets the processor and
removes the TLB entry, and its fault goes on to its end. -/
def finish (w : Writeback) (k : Kernel) : Except Halt Kernel := do
  let k ← tlbRemoveByPaddr (Conc.dispatch k w.page.p) (w.victim * pageSize)
  let k := k.take w.victim 1 w.request.ptentry
  let (_, k) ← requestEnd k (w.victim * pageSize) w.request >>= uninterrupted 1
  .ok k

/-- The next step of a swap-out. -/
def advance (w : Writeback) (k : Kernel) : Except Halt (Option Writeback × Kernel) :=
  match w.stage with
  | .locked => do
    let (swapIndex, iobuf, k) ← swapOutCopy k (w.victim * pageSize)
    .ok (some { w with stage := .copied swapIndex iobuf }, k)
  | .copied swapIndex iobuf => do
    let k ← swapOutWrite k swapIndex iobuf
    .ok (some { w with stage := .written swapIndex }, k)
  | .written swapIndex => do
    let k ← swapoutSetEntry k w.victim swapIndex
    .ok (some { w with stage := .moved swapIndex }, k)
  | .moved _ => do
    let k ← w.finish k
    .ok (none, k)

end Writeback

/-! ## The system -/

/-- The sequential system, with a swap-out under way or not. -/
structure Overlap where
  sys : Sys
  out : Option Writeback

/-- The operations : one of the sequential system; a fault of the running process, up to a
swap-out if it comes to one; the next step of the swap-out. -/
inductive OverlapOp
  | user (op : SysOp)
  | fault (faulttype : FaultType) (faultaddress : ℕ)
  | advance

instance (k : Kernel) (ty : FaultType) (va : ℕ) : Decidable (k.Misses ty va) :=
  match h : faultLookup k ty va with
  | .ok (.inr fp) =>
    decidable_of_iff (¬(k.pt fp.ptRow).InFrame (k.pt fp.ptRow).ptFrameIndex) (by
      constructor
      · intro hf
        refine ⟨fp, h, fun f hf' => hf ?_⟩
        rwa [hf'.2]
      · rintro ⟨fp', h', hf⟩
        rw [h] at h'
        cases h'
        exact hf _)
  | .ok (.inl _) => isFalse (by
      rintro ⟨fp', h', -⟩
      rw [h] at h'
      cases h')
  | .error _ => isFalse (by
      rintro ⟨fp', h', -⟩
      rw [h] at h'
      cases h')

/-- The operation asks for no frame : it is a switch to another thread, or an access to a page
that the TLB maps or that is in memory. -/
def Kernel.NeedsNoFrame (k : Kernel) : SysOp → Prop
  | .switch _ => True
  | .fault faulttype faultaddress => ¬k.Misses faulttype faultaddress
  | .load va => (k.tlb.translate false va).isRight ∨ ¬k.Misses .read va
  | .store va _ => (k.tlb.translate true va).isRight ∨ ¬k.Misses .read va
  | _ => False

instance (k : Kernel) (op : SysOp) : Decidable (k.NeedsNoFrame op) :=
  match op with
  | .switch _ => inferInstanceAs (Decidable True)
  | .fault _ _ => inferInstanceAs (Decidable (¬_))
  | .load _ => inferInstanceAs (Decidable (_ ∨ _))
  | .store _ _ => inferInstanceAs (Decidable (_ ∨ _))
  | .build _ _ => inferInstanceAs (Decidable False)
  | .destroy _ => inferInstanceAs (Decidable False)
  | .allocKpages _ => inferInstanceAs (Decidable False)
  | .freeKpages _ => inferInstanceAs (Decidable False)

/-- The thread that asked for the frame sleeps. -/
def Writeback.Asleep (w : Writeback) : SysOp → Prop
  | .switch (some p) => p ≠ w.page.p
  | _ => True

instance (w : Writeback) (op : SysOp) : Decidable (w.Asleep op) :=
  match op with
  | .switch (some _) => inferInstanceAs (Decidable (_ ≠ _))
  | .switch none => inferInstanceAs (Decidable True)
  | .fault _ _ | .load _ | .store _ _ | .build _ _ | .destroy _ | .allocKpages _
  | .freeKpages _ => inferInstanceAs (Decidable True)

namespace Overlap

/-- No swap-out is under way. -/
def ofSys (s : Sys) : Overlap :=
  ⟨s, none⟩

/-- An access that needs a frame waits for the swap-out to end. -/
def Allowed (s : Overlap) : OverlapOp → Prop
  | .user op => s.sys.Allowed op ∧ ∀ w ∈ s.out, s.sys.kernel.NeedsNoFrame op ∧ w.Asleep op
  | .fault _ _ => s.out.isNone ∧ s.sys.kernel.curproc.isSome
  | .advance => s.out.isSome

instance (s : Overlap) (op : OverlapOp) : Decidable (s.Allowed op) :=
  match op with
  | .user _ => inferInstanceAs (Decidable (_ ∧ ∀ _ ∈ _, _))
  | .fault _ _ => inferInstanceAs (Decidable (_ ∧ _))
  | .advance => inferInstanceAs (Decidable (_ = true))

/-- Run an operation. The event is that of the sequential system, if there is one. -/
def exec (s : Overlap) : OverlapOp → Except Halt (Option Event × Overlap)
  | .user op => do
    let (ev, sys) ← s.sys.exec op
    .ok (some ev, { s with sys := sys })
  | .fault faulttype faultaddress => do
    match ← faultSwapout s.sys.kernel faulttype faultaddress with
    | some (w, k) => .ok (none, ⟨{ s.sys with kernel := { k with curproc := none } }, some w⟩)
    | none => do
      let (ev, sys) ← s.sys.exec (.fault faulttype faultaddress)
      .ok (some ev, { s with sys := sys })
  | .advance =>
    match s.out with
    | none => .ok (none, s)
    | some w => do
      let (w, k) ← w.advance s.sys.kernel
      .ok (none, ⟨{ s.sys with kernel := k }, w⟩)

/-- One operation that does not stop the machine. -/
def Step (s : Overlap) (ev : Option Event) (s' : Overlap) : Prop :=
  ∃ op, s.Allowed op ∧ s.exec op = .ok (ev, s')

/-- The step of an allowed operation, for concrete runs. -/
def next (s : Overlap) (op : OverlapOp) : Option (Option Event × Overlap) :=
  if s.Allowed op then (s.exec op).toOption else none

end Overlap

/-! ## Accesses that need no frame -/

namespace Kernel

/-- The processes cannot tell `k` from `k₀` : they find the same memory, the same TLB, and the
same entries for the pages that are in memory in `k`. -/
structure Shadow (k₀ k : Kernel) : Prop where
  ram : k.ram = k₀.ram
  tlb : k.tlb = k₀.tlb
  procs : k.procs = k₀.procs
  curproc : k.curproc = k₀.curproc
  pt : ∀ {e f}, (k.pt e).InFrame f → k.pt e = k₀.pt e

/-- The records of frames, slots and pages stay as they are. -/
structure Kept (k k' : Kernel) : Prop where
  coremap : k'.coremap = k.coremap
  swap : k'.swap = k.swap
  pt : k'.pt = k.pt
  procs : k'.procs = k.procs

variable {k k' k'' k₀ k₀' : Kernel}

theorem Kept.refl (k : Kernel) : k.Kept k :=
  ⟨rfl, rfl, rfl, rfl⟩

theorem Kept.trans (h : k.Kept k') (h' : k'.Kept k'') : k.Kept k'' :=
  ⟨h'.coremap.trans h.coremap, h'.swap.trans h.swap, h'.pt.trans h.pt, h'.procs.trans h.procs⟩

/-- The entries stay related as long as the page tables stay. -/
theorem Shadow.of_kept (h : k₀.Shadow k) (hk₀ : k₀.Kept k₀') (hk : k.Kept k')
    (hram : k'.ram = k₀'.ram) (htlb : k'.tlb = k₀'.tlb) (hc : k'.curproc = k₀'.curproc) :
    k₀'.Shadow k' where
  ram := hram
  tlb := htlb
  procs := by rw [hk.procs, hk₀.procs, h.procs]
  curproc := hc
  pt := by
    intro e f hf
    rw [hk.pt] at hf
    rw [hk.pt, hk₀.pt]
    exact h.pt hf

/-- The lookup of a fault reads the processes only. -/
theorem Shadow.faultLookup (h : k₀.Shadow k) (ty : FaultType) (va : ℕ) :
    OS161.faultLookup k ty va = OS161.faultLookup k₀ ty va := by
  unfold OS161.faultLookup
  rw [h.curproc, h.procs]

theorem misses_read {ty : FaultType} {va : ℕ} (h : k.Misses ty va) : k.Misses .read va := by
  obtain ⟨fp, hl, hf⟩ := h
  cases ty with
  | read => exact ⟨fp, hl, hf⟩
  | write => exact ⟨fp, hl, hf⟩
  | readonly => cases hl
  | other => cases hl

end Kernel

/-- Two states that look alike do so again after an access, which leaves the records and the
memory of both as they were. -/
structure Reloaded (k₀ k k₀' k' : Kernel) : Prop where
  kept₀ : k₀.Kept k₀'
  kept : k.Kept k'
  shadow : k₀'.Shadow k'
  ram : k₀'.ram = k₀.ram

section Agree

variable {k₀ k : Kernel} {ty : FaultType} {va : ℕ}

/-- A fault on a page that is in memory only loads the TLB. -/
theorem vmFault_agree (h : k₀.Shadow k) (hm : ¬k.Misses ty va) :
    Agree (fun r₀ r => r₀.1 = r.1 ∧ r₀.2.curproc = k₀.curproc ∧ Reloaded k₀ k r₀.2 r.2)
      (vmFault k₀ ty va) (vmFault k ty va) := by
  have hkept : ∀ (k : Kernel) tlb stats, k.Kept { k with tlb := tlb, vmstats := stats } :=
    fun _ _ _ => ⟨rfl, rfl, rfl, rfl⟩
  have hlook : faultLookup (vmstatsHit k .tlbFault) ty va =
      faultLookup (vmstatsHit k₀ .tlbFault) ty va := h.faultLookup ty va
  unfold vmFault
  dsimp only
  rw [hlook]
  cases hl : faultLookup (vmstatsHit k₀ .tlbFault) ty va with
  | error e => exact rfl
  | ok r =>
    cases r with
    | inl r =>
      exact ⟨rfl, rfl, hkept k₀ _ _, hkept k _ _, h.of_kept (hkept k₀ _ _) (hkept k _ _) h.ram h.tlb
        h.curproc, rfl⟩
    | inr fp =>
      obtain ⟨f, hf⟩ : ∃ f, (k.pt fp.ptRow).InFrame f := by
        by_contra hno
        exact hm ⟨fp, hlook.trans hl, not_exists.mp hno⟩
      have hpt := h.pt hf
      -- Both states find the page in memory, in the same frame.
      have hres : ∀ k' : Kernel, (k'.pt fp.ptRow).InFrame f → ∃ tlb stats,
          (faultResolve (vmstatsHit k' .tlbFault) fp va >>= fun k => faultInsert k fp va) =
            .ok { k' with tlb := tlb, vmstats := stats } ∧
          tlb = k'.tlb.insert (fp.tlbEntry va f) := by
        intro k' hf'
        have hreload : faultResolve (vmstatsHit k' .tlbFault) fp va =
            .ok (vmstatsHit (vmstatsHit k' .tlbFault) .tlbReload) := by
          unfold faultResolve
          rcases hf'.1 with hst | hst <;> rw [pt_vmstatsHit, hst]
        obtain ⟨stats, hins⟩ :=
          faultInsert_eq (vmstatsHit (vmstatsHit k' .tlbFault) .tlbReload) fp va
        refine ⟨_, stats, ?_, rfl⟩
        rw [hreload, ok_bind, hins, pt_vmstatsHit, pt_vmstatsHit, hf'.2]
        rfl
      obtain ⟨tlb, stats, hk, rfl⟩ := hres k hf
      obtain ⟨tlb₀, stats₀, hk₀, rfl⟩ := hres k₀ (hpt ▸ hf)
      obtain ⟨k₁, hk₁, hk₁'⟩ := bind_eq_ok.mp hk
      obtain ⟨k₂, hk₂, hk₂'⟩ := bind_eq_ok.mp hk₀
      simp only [ok_bind, hk₁, hk₁', hk₂, hk₂']
      exact ⟨rfl, rfl, hkept k₀ _ _, hkept k _ _, h.of_kept (hkept k₀ _ _) (hkept k _ _) h.ram
        (by rw [h.tlb]) h.curproc, rfl⟩

/-- An access that needs no frame does the same in both states. -/
theorem userAccess_agree {write : Bool} (fuel : ℕ) : ∀ {k₀ k : Kernel}, k₀.Shadow k →
    ((k.tlb.translate write va).isRight ∨ ¬k.Misses .read va) →
    Agree (fun r₀ r => r₀.1 = r.1 ∧ Reloaded k₀ k r₀.2 r.2 ∧ ∀ pa, r₀.1 = some pa →
        va < userspacetop ∧ r₀.2.tlb.translate write va = .inr pa ∧ r₀.2.curproc = k₀.curproc)
      (userAccess write va fuel k₀) (userAccess write va fuel k) := by
  induction fuel with
  | zero => exact fun _ _ => rfl
  | succ fuel ih =>
    intro k₀ k h hm
    unfold userAccess
    split_ifs with htop
    · exact rfl
    · rw [h.tlb]
      cases htr : k₀.tlb.translate write va with
      | inr pa =>
        refine ⟨rfl, ⟨.refl k₀, .refl k, h, rfl⟩, ?_⟩
        rintro _ ⟨⟩
        exact ⟨not_le.mp htop, htr, rfl⟩
      | inl ty =>
        have hmiss : ¬k.Misses .read va := by
          rw [h.tlb, htr] at hm
          simpa using hm
        refine (vmFault_agree h fun hty => hmiss (Kernel.misses_read hty)).bind ?_
        rintro ⟨r₀, k₁⟩ ⟨r, k₂⟩ ⟨hr, hc, hrel⟩
        obtain rfl : r₀ = r := hr
        rcases r₀ with (_ | e) | status
        · have hmiss₂ : ¬k₂.Misses .read va := by
            rintro ⟨fp, hl, hf⟩
            refine hmiss ⟨fp, ?_, ?_⟩
            · rw [← hl, hrel.shadow.faultLookup, h.faultLookup]
              unfold faultLookup
              rw [hc, hrel.kept₀.procs]
            · rwa [← hrel.kept.pt]
          refine (ih hrel.shadow (Or.inr hmiss₂)).mono ?_
          rintro r₁ r₂ ⟨heq, hrel', hpa⟩
          refine ⟨heq, ⟨hrel.kept₀.trans hrel'.kept₀, hrel.kept.trans hrel'.kept, hrel'.shadow,
            hrel'.ram.trans hrel.ram⟩, fun pa hr => ?_⟩
          obtain ⟨hva, htr', hc'⟩ := hpa pa hr
          exact ⟨hva, htr', hc'.trans hc⟩
        · exact rfl
        · have hkept : ∀ k : Kernel, k.Kept { k with curproc := none } :=
            fun _ => ⟨rfl, rfl, rfl, rfl⟩
          refine ⟨rfl, ⟨hrel.kept₀.trans (hkept k₁), hrel.kept.trans (hkept k₂),
            hrel.shadow.of_kept (hkept k₁) (hkept k₂) hrel.shadow.ram hrel.shadow.tlb rfl,
              hrel.ram⟩,
            ?_⟩
          rintro _ ⟨⟩

end Agree

/-- What an operation that needs no frame does to two states that look alike : they keep their
records and look alike again; memory changes by a store through the TLB only. -/
structure InStep (op : SysOp) (k₀ k : Kernel) (kblocks : List ℕ) (r₀ r : Event × Sys) : Prop where
  event : r₀.1 = r.1
  kblocks₀ : r₀.2.kblocks = kblocks
  kblocks : r.2.kblocks = kblocks
  kept₀ : k₀.Kept r₀.2.kernel
  kept : k.Kept r.2.kernel
  shadow : r₀.2.kernel.Shadow r.2.kernel
  ram : r₀.2.kernel.ram = k₀.ram ∨ ∃ va b pa, op = .store va b ∧
    r₀.1 = .stored (k₀.curproc.getD 0) va b ∧ va < userspacetop ∧
      r₀.2.kernel.curproc = k₀.curproc ∧ r₀.2.kernel.tlb.translate true va = .inr pa ∧
        r₀.2.kernel.ram = Function.update k₀.ram pa b

theorem Sys.exec_agree {k₀ k : Kernel} {kblocks : List ℕ} {op : SysOp} (h : k₀.Shadow k)
    (hop : k.NeedsNoFrame op) :
    Agree (InStep op k₀ k kblocks) (Sys.exec ⟨k₀, kblocks⟩ op) (Sys.exec ⟨k, kblocks⟩ op) := by
  have hcur : Sys.current ⟨k₀, kblocks⟩ = Sys.current ⟨k, kblocks⟩ := by
    rw [Sys.current, Sys.current, h.curproc]
  cases op with
  | build p v => exact hop.elim
  | destroy p => exact hop.elim
  | allocKpages n => exact hop.elim
  | freeKpages addr => exact hop.elim
  | switch p =>
    have hact : ∀ k : Kernel, k.Kept (asActivate { k with curproc := p }) ∧
        (asActivate { k with curproc := p }).ram = k.ram ∧
        (asActivate { k with curproc := p }).curproc = p ∧
        (asActivate { k with curproc := p }).tlb =
          if (p.bind k.procs).isSome then ⟨tlbInvalid, 0, true⟩ else k.tlb := by
      intro k
      unfold asActivate
      cases p.bind k.procs with
      | none | some pr => exact ⟨⟨rfl, rfl, rfl, rfl⟩, rfl, rfl, rfl⟩
    obtain ⟨hk₀, hram₀, hc₀, ht₀⟩ := hact k₀
    obtain ⟨hk, hram, hc, ht⟩ := hact k
    refine ⟨rfl, rfl, rfl, hk₀, hk, h.of_kept hk₀ hk ?_ ?_ (hc.trans hc₀.symm), Or.inl hram₀⟩
    · rw [hram, hram₀, h.ram]
    · rw [ht, ht₀, h.procs, h.tlb]
  | fault ty va =>
    refine (vmFault_agree h hop).bind ?_
    rintro ⟨r₀, k₁⟩ ⟨r, k₂⟩ ⟨hr, -, hrel⟩
    obtain rfl : r₀ = r := hr
    cases r₀ with
    | ret e => exact ⟨rfl, rfl, rfl, hrel.kept₀, hrel.kept, hrel.shadow, Or.inl hrel.ram⟩
    | exit status =>
      have hkept : ∀ k : Kernel, k.Kept { k with curproc := none } :=
        fun _ => ⟨rfl, rfl, rfl, rfl⟩
      exact ⟨rfl, rfl, rfl, hrel.kept₀.trans (hkept k₁), hrel.kept.trans (hkept k₂),
        hrel.shadow.of_kept (hkept k₁) (hkept k₂) hrel.shadow.ram hrel.shadow.tlb rfl,
        Or.inl hrel.ram⟩
  | load va =>
    refine (userAccess_agree accessFuel h hop).bind ?_
    rintro ⟨r₀, k₁⟩ ⟨r, k₂⟩ ⟨hr, hrel, -⟩
    obtain rfl : r₀ = r := hr
    cases r₀ with
    | none =>
      refine ⟨?_, rfl, rfl, hrel.kept₀, hrel.kept, hrel.shadow, Or.inl hrel.ram⟩
      rw [hcur]
    | some pa =>
      refine ⟨?_, rfl, rfl, hrel.kept₀, hrel.kept, hrel.shadow, Or.inl hrel.ram⟩
      rw [hcur, hrel.shadow.ram]
  | store va b =>
    refine (userAccess_agree accessFuel h hop).bind ?_
    rintro ⟨r₀, k₁⟩ ⟨r, k₂⟩ ⟨hr, hrel, hpa⟩
    obtain rfl : r₀ = r := hr
    cases r₀ with
    | none =>
      refine ⟨?_, rfl, rfl, hrel.kept₀, hrel.kept, hrel.shadow, Or.inl hrel.ram⟩
      rw [hcur]
    | some pa =>
      obtain ⟨hva, htr, hc⟩ := hpa pa rfl
      have hkept : ∀ k : Kernel, k.Kept { k with ram := Function.update k.ram pa b } :=
        fun _ => ⟨rfl, rfl, rfl, rfl⟩
      refine ⟨?_, rfl, rfl, hrel.kept₀.trans (hkept k₁), hrel.kept.trans (hkept k₂),
        hrel.shadow.of_kept (hkept k₁) (hkept k₂) ?_ hrel.shadow.tlb hrel.shadow.curproc,
        Or.inr ⟨va, b, pa, rfl, rfl, hva, hc, htr, ?_⟩⟩
      · rw [hcur]
      · rw [hrel.shadow.ram]
      · rw [hrel.ram]

end OS161
