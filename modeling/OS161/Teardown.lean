import OS161.Interleaving

/-!
# Destroying an address space while pages are on their way to swap

A swap-out locks its victim, sleeps until the page is written, and then writes the entry of
the victim through the pointer in the coremap. `as_destroy` looks at none of this. As long as
it is kept away from address spaces with a page on its way to swap, and no frame is taken
that is being read into, every step writes entries of live page tables only, a victim goes to
the request it was evicted for and to no one else, and every slot that is marked has one user
which gives it back (`teardown_safe_of_run`).

Without that condition the table may be gone when the swap-out comes back
(`dead_entry_written_small`).
-/

namespace OS161

/-! ## Who uses a swap slot -/

/-- A swap slot is used by a page that is in it, or by a thread that writes a page to it. -/
inductive SlotUser
  | page (e : PtPtr)
  | thread (t : ℕ)

/-- Who uses a slot. -/
def SlotUser.Uses (s : Conc) (i : ℕ) : SlotUser → Prop
  | .page e => s.kernel.Live e ∧ (s.kernel.pt e).InSlot i
  | .thread t => ∃ req f, s.sleep t = some (.swapOut req f i)

/-- A slot is marked exactly if it has one user. -/
def SlotsExact (s : Conc) : Prop :=
  ∀ i < swapfileNpages, s.kernel.swap.swapmap.Marked i ↔ ∃! u : SlotUser, u.Uses s i

/-- The slots of the pages of an address space are free after it is destroyed. -/
def SlotsReleased (s : Conc) (op : ConcOp) (s' : Conc) : Prop :=
  ∀ e i, op = .destroy e.asid → s.kernel.Live e → (s.kernel.pt e).InSlot i →
    ¬s'.kernel.swap.swapmap.Marked i

section Slots

variable {s s' : Conc} {g : Ghost} {i : ℕ}

theorem SlotUser.unique (hg : InFlight g s.kernel s.sleep) {u u' : SlotUser} (hu : u.Uses s i)
    (hu' : u'.Uses s i) : u = u' := by
  have hpage : ∀ e, (SlotUser.page e).Uses s i → Holder.Holds g s.kernel.pt (.page e) i :=
    fun e h => ⟨hg.live ▸ h.1, h.2⟩
  have hframe : ∀ t req f, s.sleep t = some (.swapOut req f i) →
      Holder.Holds g s.kernel.pt (.frame f) i := fun t req f ht => (hg.locked_of_swapOut ht).1
  have huniq := hg.owned.slots.unique
  match u, u', hu, hu' with
  | .page e, .page e', hu, hu' =>
    rw [Holder.page.inj (huniq _ _ i (hpage e hu) (hpage e' hu'))]
  | .page e, .thread t, hu, ⟨req, f, ht⟩ => cases huniq _ _ i (hpage e hu) (hframe t req f ht)
  | .thread t, .page e, ⟨req, f, ht⟩, hu' => cases huniq _ _ i (hframe t req f ht) (hpage e hu')
  | .thread t, .thread t', ⟨req, f, ht⟩, ⟨req', f', ht'⟩ =>
    obtain rfl := Holder.frame.inj (huniq _ _ i (hframe t req f ht) (hframe t' req' f' ht'))
    rw [hg.swapOut_inj ht ht']

theorem slotsExact_of_inv (hs : s.Inv) : SlotsExact s := by
  obtain ⟨g, hg⟩ := hs.flight
  intro i hi
  rw [hg.owned.slots.marked i hi]
  constructor
  · rintro ⟨x, hx⟩
    cases x with
    | page e =>
      have hu : (SlotUser.page e).Uses s i := ⟨hg.live ▸ hx.1, hx.2⟩
      exact ⟨.page e, hu, fun u hu' => SlotUser.unique hg hu' hu⟩
    | frame f =>
      obtain ⟨t, req, ht⟩ := hg.swapOut_of_out hx
      have hu : (SlotUser.thread t).Uses s i := ⟨req, f, ht⟩
      exact ⟨.thread t, hu, fun u hu' => SlotUser.unique hg hu' hu⟩
  · rintro ⟨u, hu, -⟩
    match u, hu with
    | .page e, hu => exact ⟨.page e, hg.live ▸ hu.1, hu.2⟩
    | .thread t, ⟨req, f, ht⟩ => exact ⟨.frame f, (hg.locked_of_swapOut ht).1⟩

/-- Nobody uses a slot of an address space that is destroyed. -/
theorem slotsReleased_of_moved {op : ConcOp} {r : Outcome × Conc} (hs : s.Inv)
    (hm : s.Moved op r) : SlotsReleased s op r.2 := by
  rintro e i hop hl hi hmark
  obtain ⟨hpt, hsl, hprocs⟩ := hm.destroyed e.asid hop
  obtain ⟨g, hg⟩ := hs.flight
  have hlt := hg.owned.slots.lt (.page e) i ⟨hg.live ▸ hl, hi⟩
  obtain ⟨u, hu, -⟩ := (slotsExact_of_inv hm.inv i hlt).mp hmark
  match u, hu with
  | .page e', ⟨⟨pr, n, hpr, hn⟩, hi'⟩ =>
    rw [hprocs] at hpr
    by_cases hasid : e'.asid = e.asid
    · rw [hasid, Function.update_self] at hpr
      cases hpr
    · rw [Function.update_of_ne hasid] at hpr
      have hu' : (SlotUser.page e').Uses s i := ⟨⟨pr, n, hpr, hn⟩, hpt ▸ hi'⟩
      have hu : (SlotUser.page e).Uses s i := ⟨hl, hi⟩
      obtain rfl := SlotUser.page.inj (SlotUser.unique hg hu' hu)
      exact hasid rfl
  | .thread t, ⟨req, f, ht⟩ =>
    have hu' : (SlotUser.thread t).Uses s i := ⟨req, f, hsl ▸ ht⟩
    have hu : (SlotUser.page e).Uses s i := ⟨hl, hi⟩
    cases SlotUser.unique hg hu' hu

end Slots

/-! ## Tearing down -/

/-- What an operation does to page tables, victims and swap slots. -/
structure TeardownSafe (s : Conc) (op : ConcOp) (s' : Conc) : Prop where
  live : ∀ e, s'.kernel.pt e ≠ s.kernel.pt e → s.kernel.Live e
  handed : s.HandedOver op s'
  slots : SlotsExact s'
  released : SlotsReleased s op s'

/-- In every run that destroys no address space with a page on its way to swap and takes no
frame that is being read into, a slot is marked exactly if it has one user. An operation of
such a run stops only by a panic for want of memory, swap space or a victim or by an error of
the disk, so that no slot is released twice. It writes entries of live tables only, leaves a
victim to the request it was evicted for, and releases the slots of an address space that is
destroyed. -/
theorem teardown_safe_of_run {ramsize firstfree : ℕ} {s₀ s₁ : Sys} {tr₀ : List Event}
    {tr : List (ConcOp × Outcome)} {s : Conc} (hb : Sys.Boot ramsize firstfree s₀)
    (h₁ : Run Sys.Step s₀ tr₀ s₁)
    (h : Run (guarded (fun s ev => s.Undisturbed ev.1) Conc.Step) (.ofSys s₁) tr s) :
    SlotsExact s ∧ ∀ op, s.Allowed op → s.Undisturbed op →
      Meets Halt.Resource (fun r => TeardownSafe s op r.2) (s.exec op) := by
  have hs := Conc.run_inv hb h₁ h
  refine ⟨slotsExact_of_inv hs, fun op hal hg => (Conc.exec_spec hs hal hg).mono fun r hr => ?_⟩
  exact ⟨hr.pt, hr.handed, slotsExact_of_inv hr.inv, slotsReleased_of_moved hs hr⟩

/-! ## Small runs -/

/-- Nothing is read into while no thread sleeps. -/
theorem victimSafe_ofSys (s : Sys) : VictimSafe (Conc.ofSys s).kernel (Conc.ofSys s).sleep := by
  rintro f - ⟨t, fp, va, ⟨plan, ht, -⟩ | ⟨paddr, i, ht, -⟩⟩ <;> cases ht

/-- An address space none of whose frames is locked may be destroyed. -/
theorem Conc.Inv.destroysSafely {s : Conc} {p : ℕ} (hs : s.Inv)
    (h : ∀ f < s.kernel.coremap.nRamFrames, s.kernel.coremap.locked f = true →
      ∀ e ∈ s.kernel.coremap.owner f, e.asid ≠ p) : s.DestroysSafely (.destroy p) := by
  obtain ⟨g, hg⟩ := hs.flight
  intro t req f i e ht he
  obtain ⟨ho, hl⟩ := hg.locked_of_swapOut ht
  obtain ⟨e', hl', hf⟩ := hg.owned.frames.out f i ho
  exact h f (hg.owned.frames.resident e' f hl' hf).1 hl e he

/-- A thread of the kernel takes the frame of process `1` while process `2` is destroyed. -/
theorem teardown_safe_of_run_small : ∃ tr₀ s₁ tr s, Run Sys.Step (.small 3) tr₀ s₁ ∧
    Run (guarded (fun s ev => s.Undisturbed ev.1) Conc.Step) (.ofSys s₁) tr s ∧ tr.length = 3 ∧
      SlotsExact s ∧ ∀ op, s.Allowed op → s.Undisturbed op →
        Meets Halt.Resource (fun r => TeardownSafe s op r.2) (s.exec op) := by
  have h : ((execute Sys.next [] (.small 3) [.build 2 Sys.smallFile, .build 1 Sys.smallFile,
      .store 0x10000001 7, .switch none]).bind fun r₁ =>
        ((Conc.ofSys r₁.2).next (.allocKpages 5 1)).bind fun r₂ => (r₂.2.next (.destroy 2)).bind
          fun r₃ => (r₃.2.next (.wake 5)).map fun r₄ =>
            decide (∀ f < r₂.2.kernel.coremap.nRamFrames, r₂.2.kernel.coremap.locked f = true →
              ∀ e ∈ r₂.2.kernel.coremap.owner f, e.asid ≠ 2)) = some true := by
    decide +kernel
  obtain ⟨⟨tr₀, s₁⟩, h₁, h⟩ := Option.bind_eq_some_iff.mp h
  obtain ⟨⟨ev₂, s₂⟩, h₂, h⟩ := Option.bind_eq_some_iff.mp h
  obtain ⟨⟨ev₃, s₃⟩, h₃, h⟩ := Option.bind_eq_some_iff.mp h
  obtain ⟨⟨ev₄, s₄⟩, h₄, hlock⟩ := Option.map_eq_some_iff.mp h
  obtain ⟨out₂, rfl⟩ := Conc.event_of_next h₂
  obtain ⟨out₃, rfl⟩ := Conc.event_of_next h₃
  obtain ⟨out₄, rfl⟩ := Conc.event_of_next h₄
  have hb := @Sys.small_boot 3 (by decide) (by decide)
  have hrun₁ := Run.of_execute h₁ Sys.step_of_next
  have hrun₂ : Run (guarded (fun s ev => s.Undisturbed ev.1) Conc.Step) (.ofSys s₁)
      [(.allocKpages 5 1, out₂)] s₂ :=
    .snoc .start ⟨Conc.step_of_next h₂, fun _ => victimSafe_ofSys s₁, trivial⟩
  have hsafe := (Conc.run_inv hb hrun₁ hrun₂).destroysSafely (of_decide_eq_true hlock)
  have hrun₃ := hrun₂.snoc (a := (ConcOp.destroy 2, out₃)) ⟨Conc.step_of_next h₃, False.elim, hsafe⟩
  have hrun₄ := hrun₃.snoc (a := (ConcOp.wake 5, out₄)) ⟨Conc.step_of_next h₄, False.elim, trivial⟩
  exact ⟨tr₀, s₁, _, s₄, hrun₁, hrun₄, rfl, teardown_safe_of_run hb hrun₁ hrun₄⟩

/-- A thread of the kernel writes the page of process `1` to swap when process `1` is
destroyed, and then writes the entry of the page table that is gone. -/
theorem dead_entry_written_small : ∃ tr₀ s₁ tr s out s', Run Sys.Step (.small 3) tr₀ s₁ ∧
    Run Conc.Step (.ofSys s₁) tr s ∧ s.Step (.wake 5, out) s' ∧
      ¬TeardownSafe s (.wake 5) s' := by
  have h : ((execute Sys.next [] (.small 3) [.build 1 Sys.smallFile, .store 0x10000001 7,
      .switch none]).bind fun r₁ => (execute Conc.next [] (.ofSys r₁.2) [.allocKpages 5 1,
        .destroy 1]).bind fun r => (r.2.next (.wake 5)).map fun r' =>
          decide (¬r.2.kernel.Live ⟨1, 1⟩ ∧ r'.2.kernel.pt ⟨1, 1⟩ ≠ r.2.kernel.pt ⟨1, 1⟩)) =
            some true := by
    decide +kernel
  obtain ⟨⟨tr₀, s₁⟩, h₁, h⟩ := Option.bind_eq_some_iff.mp h
  obtain ⟨⟨tr, s⟩, h₂, h⟩ := Option.bind_eq_some_iff.mp h
  obtain ⟨⟨ev, s'⟩, h₃, h⟩ := Option.map_eq_some_iff.mp h
  obtain ⟨hdead, hne⟩ := of_decide_eq_true h
  obtain ⟨out, rfl⟩ := Conc.event_of_next h₃
  exact ⟨tr₀, s₁, tr, s, out, s', .of_execute h₁ Sys.step_of_next, .of_execute h₂ Conc.step_of_next,
    Conc.step_of_next h₃, fun hsafe => hdead (hsafe.live _ hne)⟩

end OS161
