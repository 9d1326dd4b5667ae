import OS161.TlbAgree

/-!
# Free slots and replacements

`tlb_insert` does not look at the TLB to find out whether it is full. The cursor
`tlb_victim` goes round the slots, and the flag `tlb_free`, set by `tlb_invalidate` and
cleared when the cursor comes back to slot 0, says which of the two counters is hit.
`Tlb.Filling` is what cursor and flag know : how many entries were inserted since the TLB
was invalidated, and that the slots the cursor has not reached are invalid. Removals do not
touch this. They make slots invalid that the cursor has passed, and once it is round the
flag no longer speaks about the slots.

`tlbInsert_counted_iff` says for every run of the three functions when the counters mean
what the README says : as long as the TLB was not filled once, and after that as long as no
removal has left a hole.
-/

namespace OS161

/-! ## The three functions as a system -/

/-- A call of `tlb_invalidate`, `tlb_insert` or `tlb_remove_by_paddr`. -/
inductive TlbOp
  | invalidate
  | insert (vaddr paddr : ℕ) (ro : Bool)
  | removeByPaddr (paddr : ℕ)
  deriving DecidableEq, Repr

variable {k k' : Kernel} {vaddr paddr : ℕ} {ro : Bool} {tr : List TlbOp}

/-- One call. -/
def TlbOp.run (k : Kernel) : TlbOp → Except Halt Kernel
  | .invalidate => .ok (tlbInvalidate k)
  | .insert vaddr paddr ro => tlbInsert k vaddr paddr ro
  | .removeByPaddr paddr => tlbRemoveByPaddr k paddr

/-- A call that returns. -/
def TlbOp.Step (k : Kernel) (op : TlbOp) (k' : Kernel) : Prop :=
  op.run k = .ok k'

/-- The insertions since the TLB was last invalidated, for a trace with the newest call
first. -/
def insertions : List TlbOp → ℕ
  | [] => 0
  | .invalidate :: _ => 0
  | .insert .. :: tr => insertions tr + 1
  | .removeByPaddr _ :: tr => insertions tr

/-- The TLB as it is after booting, with `tlb_victim` and `tlb_free` as they are initialised. -/
def Tlb.boot : Tlb :=
  ⟨tlbInvalid, 0, true⟩

/-- Every slot holds a valid entry. -/
def Tlb.Full (tlb : Tlb) : Prop :=
  ∀ i, (tlb.slot i).valid = true

instance (tlb : Tlb) : Decidable tlb.Full :=
  inferInstanceAs (Decidable (∀ i, (tlb.slot i).valid = true))

theorem tlbInsert_eq_ok
    (h : tlbInsert k vaddr paddr ro = .ok k') :
    k'.tlb = k.tlb.insert ⟨vaddr, paddr, !ro, true⟩ ∧
      k'.vmstats = (vmstatsHit k
        (if k.tlb.tlbFree then .tlbFaultFree else .tlbFaultReplace)).vmstats := by
  simp only [tlbInsert, bind_eq_ok, Except.ok.injEq] at h
  obtain ⟨-, -, rfl⟩ := h
  exact ⟨rfl, rfl⟩

theorem tlbRemoveByPaddr_eq_ok
    (h : tlbRemoveByPaddr k paddr = .ok k') : k' = { k with tlb := k.tlb.remove paddr } := by
  simp only [tlbRemoveByPaddr, bind_eq_ok, Except.ok.injEq] at h
  obtain ⟨-, -, rfl⟩ := h
  rfl

/-! ## What cursor and flag know -/

/-- `n` entries were inserted since the TLB was invalidated. -/
structure Tlb.Filling (tlb : Tlb) (n : ℕ) : Prop where
  victim : (tlb.tlbVictim : ℕ) = n % 64
  free : tlb.tlbFree = decide (n < 64)
  fresh : ∀ i : Fin 64, n ≤ i → (tlb.slot i).valid = false

namespace Tlb.Filling

variable {tlb : Tlb} {n : ℕ}

theorem boot : Tlb.boot.Filling 0 :=
  ⟨rfl, rfl, fun _ _ => rfl⟩

theorem insert (h : tlb.Filling n) (x : TlbEntry) : (tlb.insert x).Filling (n + 1) := by
  have hv := h.victim
  have hwrap : tlb.tlbVictim + 1 = 0 ↔ n % 64 = 63 := by
    rw [Fin.ext_iff, Fin.val_add, hv]
    omega
  refine ⟨?_, ?_, fun i hi => ?_⟩
  · change ((tlb.tlbVictim + 1 : Fin 64) : ℕ) = _
    rw [Fin.val_add, hv]
    omega
  · change (if tlb.tlbVictim + 1 = 0 then false else tlb.tlbFree) = _
    rw [h.free]
    split_ifs with h0
    · rw [eq_comm, decide_eq_false_iff_not]
      omega
    · exact decide_eq_decide.mpr (by omega)
  · have hne : i ≠ tlb.tlbVictim := by
      rintro rfl
      omega
    rw [slot_insert_of_ne hne]
    exact h.fresh i (by omega)

theorem remove (h : tlb.Filling n) (paddr : ℕ) : (tlb.remove paddr).Filling n := by
  have hkeep : (tlb.remove paddr).tlbVictim = tlb.tlbVictim ∧
      (tlb.remove paddr).tlbFree = tlb.tlbFree := by
    unfold Tlb.remove
    split <;> exact ⟨rfl, rfl⟩
  refine ⟨by rw [hkeep.1, h.victim], by rw [hkeep.2, h.free], fun i hi => ?_⟩
  rw [← Bool.not_eq_true]
  intro hv
  have heq := (slot_remove hv).1
  rw [heq, h.fresh i hi] at hv
  cases hv

/-- Until the cursor is round for the first time, the slot it is at is invalid. -/
theorem victim_invalid (h : tlb.Filling n) (hn : n < 64) :
    (tlb.slot tlb.tlbVictim).valid = false :=
  h.fresh _ (by rw [h.victim, Nat.mod_eq_of_lt hn])

end Tlb.Filling

/-- Cursor and flag follow the insertions of the trace. -/
theorem TlbOp.step_filling {op : TlbOp}
    (h : k.tlb.Filling (insertions tr)) (hs : TlbOp.Step k op k') :
    k'.tlb.Filling (insertions (op :: tr)) := by
  cases op with
  | invalidate =>
    obtain rfl := Except.ok.inj hs
    exact .boot
  | insert vaddr paddr ro =>
    rw [(tlbInsert_eq_ok hs).1]
    exact h.insert _
  | removeByPaddr paddr =>
    rw [tlbRemoveByPaddr_eq_ok hs]
    exact h.remove paddr

theorem TlbOp.run_filling {k₀ : Kernel} (h0 : k₀.tlb = .boot)
    (hr : Run TlbOp.Step k₀ tr k) : k.tlb.Filling (insertions tr) :=
  hr.trace_induct (I := fun tr k => k.tlb.Filling (insertions tr)) (h0 ▸ .boot)
    fun _ _ _ _ _ ih hs => step_filling ih hs

/-! ## The counters -/

/-- The insertion that leads from `k` to `k'` is counted, and done, as the README says : with
a free slot it counts as `TLB Fault with Free` and overwrites no valid entry, and it counts as
`TLB Fault with Replace` if all slots hold valid entries. -/
structure InsertCounted (k k' : Kernel) : Prop where
  free : k'.vmstats .tlbFaultFree = k.vmstats .tlbFaultFree + 1 ↔ ¬k.tlb.Full
  keeps : ¬k.tlb.Full → ∀ i, (k.tlb.slot i).valid = true → k'.tlb.slot i = k.tlb.slot i
  replace : k'.vmstats .tlbFaultReplace = k.vmstats .tlbFaultReplace + 1 ↔ k.tlb.Full

/-- The flag decides which counter is hit. -/
theorem tlbInsert_vmstats
    (h : tlbInsert k vaddr paddr ro = .ok k') :
    (k'.vmstats .tlbFaultFree = k.vmstats .tlbFaultFree + 1 ↔ k.tlb.tlbFree = true) ∧
      (k'.vmstats .tlbFaultReplace = k.vmstats .tlbFaultReplace + 1 ↔ k.tlb.tlbFree = false) := by
  rw [(tlbInsert_eq_ok h).2]
  cases k.tlb.tlbFree <;> simp [vmstatsHit]

/-- After every sequence of `tlb_invalidate`, `tlb_insert` and `tlb_remove_by_paddr`, a
`tlb_insert` is counted and done as the README says exactly if fewer entries than there are
slots were inserted since the TLB was invalidated, or no slot is free. -/
theorem tlbInsert_counted_iff {k₀ : Kernel} (h0 : k₀.tlb = .boot)
    (hr : Run TlbOp.Step k₀ tr k)
    (h : tlbInsert k vaddr paddr ro = .ok k') :
    InsertCounted k k' ↔ insertions tr < 64 ∨ k.tlb.Full := by
  have hf := TlbOp.run_filling h0 hr
  obtain ⟨hfree, hrepl⟩ := tlbInsert_vmstats h
  by_cases hn : insertions tr < 64
  · refine iff_of_true ?_ (Or.inl hn)
    have hflag : k.tlb.tlbFree = true := by rw [hf.free, decide_eq_true hn]
    have hv := hf.victim_invalid hn
    have hhole : ¬k.tlb.Full := fun hfull => by
      rw [hfull k.tlb.tlbVictim] at hv
      cases hv
    refine ⟨iff_of_true (hfree.mpr hflag) hhole, fun _ i hi => ?_, ?_⟩
    · rw [(tlbInsert_eq_ok h).1]
      refine Tlb.slot_insert_of_ne ?_
      rintro rfl
      rw [hi] at hv
      cases hv
    · rw [hrepl, hflag]
      exact iff_of_false Bool.noConfusion hhole
  · have hflag : k.tlb.tlbFree = false := by rw [hf.free, decide_eq_false hn]
    rw [or_iff_right hn]
    refine ⟨fun hc => hc.replace.mp (hrepl.mpr hflag), fun hfull => ⟨?_, ?_, ?_⟩⟩
    · rw [hfree, hflag]
      exact iff_of_false Bool.noConfusion (not_not_intro hfull)
    · exact fun hnot => absurd hfull hnot
    · exact iff_of_true (hrepl.mpr hflag) hfull

/-! ## A TLB with a hole -/

/-- The next state with the call as label, for calls that return. -/
def TlbOp.next (k : Kernel) (op : TlbOp) : Option (TlbOp × Kernel) :=
  (op.run k).toOption.map fun k' => (op, k')

theorem TlbOp.step_of_next {k k' : Kernel} {op a : TlbOp}
    (h : TlbOp.next k op = some (a, k')) : TlbOp.Step k a k' := by
  obtain ⟨r, hr, heq⟩ := Option.map_eq_some_iff.mp h
  obtain ⟨rfl, rfl⟩ := Prod.mk.inj heq
  exact eq_ok_of_toOption hr

/-- One page for each slot : page `i` in frame `i + 2`. -/
def fillTlb : List TlbOp :=
  (List.range 64).map fun i => .insert (i * pageSize) ((i + 2) * pageSize) false

/-- The pages of `fillTlb` and one more : the last insertion replaces an entry of a full TLB,
and is counted so. -/
theorem tlbInsert_counted_iff_full : ∃ tr k k', Run TlbOp.Step (Sys.small 4).kernel tr k ∧
    tlbInsert k (100 * pageSize) pageSize true = .ok k' ∧ k.tlb.Full ∧ InsertCounted k k' := by
  have heval : ((execute TlbOp.next [] (Sys.small 4).kernel fillTlb).bind fun r =>
      (tlbInsert r.2 (100 * pageSize) pageSize true).toOption.map fun _ => decide r.2.tlb.Full) =
      some true := by
    decide +kernel
  obtain ⟨⟨tr, k⟩, hex, h⟩ := Option.bind_eq_some_iff.mp heval
  obtain ⟨k', hins, hfull⟩ := Option.map_eq_some_iff.mp h
  have hrun := Run.of_execute hex TlbOp.step_of_next
  have hins' := eq_ok_of_toOption hins
  have hfull' : k.tlb.Full := of_decide_eq_true hfull
  exact ⟨tr, k, k', hrun, hins', hfull', (tlbInsert_counted_iff rfl hrun hins').mpr (.inr hfull')⟩

/-- The page in slot 1 is evicted when the TLB has been filled. The next insertion counts as
a replacement and overwrites the valid entry of slot 0, though slot 1 is free. -/
theorem tlbInsert_replaces_with_hole : ∃ tr k k', Run TlbOp.Step (Sys.small 4).kernel tr k ∧
    tlbInsert k (100 * pageSize) pageSize true = .ok k' ∧ (k.tlb.slot 1).valid = false ∧
    k'.vmstats .tlbFaultReplace = k.vmstats .tlbFaultReplace + 1 ∧
    (k.tlb.slot 0).valid = true ∧ k'.tlb.slot 0 ≠ k.tlb.slot 0 := by
  have heval : ((execute TlbOp.next [] (Sys.small 4).kernel
      (fillTlb ++ [.removeByPaddr (3 * pageSize)])).bind fun r =>
      (tlbInsert r.2 (100 * pageSize) pageSize true).toOption.map fun k' =>
        decide ((r.2.tlb.slot 1).valid = false ∧
          k'.vmstats .tlbFaultReplace = r.2.vmstats .tlbFaultReplace + 1 ∧
          (r.2.tlb.slot 0).valid = true ∧ k'.tlb.slot 0 ≠ r.2.tlb.slot 0)) = some true := by
    decide +kernel
  obtain ⟨⟨tr, k⟩, hex, h⟩ := Option.bind_eq_some_iff.mp heval
  obtain ⟨k', hins, hprop⟩ := Option.map_eq_some_iff.mp h
  exact ⟨tr, k, k', .of_execute hex TlbOp.step_of_next, eq_ok_of_toOption hins,
    of_decide_eq_true hprop⟩

end OS161
