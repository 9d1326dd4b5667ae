import OS161.Interleaving

/-!
# Faults that run at the same time

Several processes fault at once. As long as no fault takes a frame that another fault is
reading its page into, no frame has two owners and a fault that returns has put the frame of
its page into the TLB (`frames_exclusive_of_run`).

The condition is needed. The lock of a frame, `cm_lock`, is held only while the frame is
written to swap, so the victim search can pick a frame that is being read into.
`frames_shared_small` is a run of two processes with one frame to share : one is reading its
page from swap into the frame when the other takes it, and both end up with it.
-/

namespace OS161

/-! ## The property -/

/-- The operations of processes that only fault. -/
def ConcOp.Faults : ConcOp → Prop
  | .switch _ | .fault _ _ | .wake _ => True
  | _ => False

instance (op : ConcOp) : Decidable op.Faults :=
  match op with
  | .switch _ | .fault _ _ | .wake _ => inferInstanceAs (Decidable True)
  | .allocKpages _ _ | .freeKpages _ | .destroy _ => inferInstanceAs (Decidable False)

/-- No frame is the frame of two pages in memory. -/
def FramesExclusive (k : Kernel) : Prop :=
  ∀ e e' f, k.Live e → k.Live e' → (k.pt e).InFrame f → (k.pt e').InFrame f → e = e'

/-- A fault that returned has put the frame of its page into the TLB. -/
def FaultInstalled (out : Outcome) (k : Kernel) : Prop :=
  ∀ fp va, out = .returned (.faulted fp va) → Installed k fp va

/-- The operation is about a fault, and if it takes a frame from a page, no thread is reading
into that frame. -/
def FaultSafe (s : Conc) (ev : ConcOp × Outcome) : Prop :=
  ev.1.Faults ∧ (s.NeedsFrame ev.1 → VictimSafe s.kernel s.sleep)

theorem FaultSafe.undisturbed {s : Conc} {ev : ConcOp × Outcome} (h : FaultSafe s ev) :
    s.Undisturbed ev.1 := by
  obtain ⟨op, out⟩ := ev
  refine ⟨h.2, ?_⟩
  cases op with
  | destroy p => exact h.1.elim
  | _ => trivial

theorem InFlight.framesExclusive {g : Ghost} {k : Kernel} {sleep : ℕ → Option Sleep}
    (h : InFlight g k sleep) : FramesExclusive k := by
  intro e e' f hl hl' hf hf'
  rw [← h.live] at hl hl'
  exact h.owned.frames.resident_inj hl hl' hf hf'

/-- In every run of faults none of which takes a frame that is being read into, no frame has
two owners, and every fault that returns has installed the frame of its page. -/
theorem frames_exclusive_of_run {ramsize firstfree : ℕ} {s₀ s₁ : Sys} {tr₀ : List Event}
    {tr : List (ConcOp × Outcome)} {s : Conc} (hb : Sys.Boot ramsize firstfree s₀)
    (h₁ : Run Sys.Step s₀ tr₀ s₁) (h : Run (guarded FaultSafe Conc.Step) (.ofSys s₁) tr s) :
    FramesExclusive s.kernel ∧
      ∀ ev s', guarded FaultSafe Conc.Step s ev s' → FaultInstalled ev.2 s'.kernel := by
  have hs : s.Inv := Conc.run_inv hb h₁ (h.mono fun _ _ _ hs => ⟨hs.1, hs.2.undisturbed⟩)
  obtain ⟨g, hg⟩ := hs.flight
  exact ⟨hg.framesExclusive, fun ev s' hst => (Conc.step_inv hs hst.1 hst.2.undisturbed).faulted⟩

/-! ## Small runs -/

namespace Conc

/-- A frame is free. -/
def hasRoom (s : Conc) : Bool :=
  match coremapFindFreeframes s.kernel.coremap 1 with
  | .ok none => false
  | _ => true

/-- The operations about faults, while there are free frames. -/
def nextRoomy (s : Conc) (op : ConcOp) : Option ((ConcOp × Outcome) × Conc) :=
  if op.Faults ∧ s.hasRoom then s.next op else none

theorem guarded_of_nextRoomy {s s' : Conc} {op : ConcOp} {ev : ConcOp × Outcome}
    (h : s.nextRoomy op = some (ev, s')) : guarded FaultSafe Step s ev s' := by
  unfold nextRoomy at h
  split_ifs at h with hop
  obtain ⟨out, rfl⟩ := event_of_next h
  refine ⟨step_of_next h, hop.1, fun _ f hc => ?_⟩
  have hroom := hop.2
  rw [hasRoom, hc.1] at hroom
  cases hroom

end Conc

/-- Two processes read pages from their files at the same time. -/
theorem frames_exclusive_of_run_small : ∃ tr₀ s₁ tr s, Run Sys.Step (.small 8) tr₀ s₁ ∧
    Run (guarded FaultSafe Conc.Step) (.ofSys s₁) tr s ∧ tr.length = 6 ∧
      FramesExclusive s.kernel ∧
        ∀ ev s', guarded FaultSafe Conc.Step s ev s' → FaultInstalled ev.2 s'.kernel := by
  have h : ((execute Sys.next [] (.small 8) [.build 1 Sys.smallFile, .build 2 Sys.smallFile]).bind
      fun r₁ => (execute Conc.nextRoomy [] (.ofSys r₁.2) [.switch (some 1), .fault .read 0x400002,
        .switch (some 2), .fault .write 0x10000001, .wake 1, .wake 2]).map
          fun r => r.1.length) = some 6 := by
    decide +kernel
  obtain ⟨⟨tr₀, s₁⟩, h₁, h⟩ := Option.bind_eq_some_iff.mp h
  obtain ⟨⟨tr, s⟩, h₂, hlen⟩ := Option.map_eq_some_iff.mp h
  have hrun₁ := Run.of_execute h₁ Sys.step_of_next
  have hrun := Run.of_execute h₂ Conc.guarded_of_nextRoomy
  exact ⟨tr₀, s₁, tr, s, hrun₁, hrun, hlen,
    frames_exclusive_of_run (Sys.small_boot (by decide) (by decide)) hrun₁ hrun⟩

/-- With one frame to share, process `1` is reading its data page from swap into the frame
when process `2` takes it for its stack. Both pages end up in the frame. -/
theorem frames_shared_small : ∃ tr₀ s₁ tr s, Run Sys.Step (.small 3) tr₀ s₁ ∧
    Run Conc.Step (.ofSys s₁) tr s ∧ (∀ ev ∈ tr, ev.1.Faults) ∧ ¬FramesExclusive s.kernel := by
  have h : ((execute Sys.next [] (.small 3) [.build 1 Sys.smallFile, .build 2 Sys.smallFile,
      .switch (some 1), .store 0x10000001 7, .store 0x7ffffff0 9]).bind
      fun r₁ => (execute Conc.next [] (.ofSys r₁.2) [.fault .write 0x10000001, .wake 1,
        .switch (some 2), .fault .write 0x7ffffff0, .wake 2, .wake 1]).map
          fun r => decide ((∀ ev ∈ r.1, ev.1.Faults) ∧ r.2.kernel.Live ⟨1, 1⟩ ∧
            r.2.kernel.Live ⟨2, 19⟩ ∧ (r.2.kernel.pt ⟨1, 1⟩).InFrame 2 ∧
              (r.2.kernel.pt ⟨2, 19⟩).InFrame 2)) = some true := by
    decide +kernel
  obtain ⟨⟨tr₀, s₁⟩, h₁, h⟩ := Option.bind_eq_some_iff.mp h
  obtain ⟨⟨tr, s⟩, h₂, h⟩ := Option.map_eq_some_iff.mp h
  obtain ⟨hops, hl, hl', hf, hf'⟩ := of_decide_eq_true h
  refine ⟨tr₀, s₁, tr, s, .of_execute h₁ Sys.step_of_next, .of_execute h₂ Conc.step_of_next, hops,
    fun hex => ?_⟩
  cases hex _ _ 2 hl hl' hf hf'

end OS161
