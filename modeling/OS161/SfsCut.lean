import OS161.SfsTrunc

/-!
# Which blocks a truncation releases

`CutOff s d cut dropped s' d'` says what becomes of the file with inode `d` when its blocks
`cut` are released, and its indirect block, if `dropped`. Each loop of `sfs_itrunc` does this for
its own blocks, and `CutOff.trans` puts them together : `sfsItrunc_cutOff` has the blocks that
`sfs_itrunc` releases, which are those from the new end on among the direct blocks, but only
those past it in the indirect block, and none if the new end is in the last two.

`trunc_releases_iff` compares this with the blocks past the new end.
-/

namespace OS161

open Sfs Volume Function

variable {ok : Halt → Prop} {s s' s'' : Sfs} {d d' d'' : DiskBlock} {i j blocklen : ℕ}
  {cut cut' : ℕ → Prop} {dropped dropped' : Prop}

/-- The blocks `cut` of a file are released, and its indirect block, if `dropped`. The other data
blocks stay as they are. -/
structure CutOff (s : Sfs) (d : DiskBlock) (cut : ℕ → Prop) (dropped : Prop) (s' : Sfs)
    (d' : DiskBlock) : Prop where
  gone : ∀ k, cut k → filePtr s'.disk d' k = 0
  kept : ∀ k, ¬cut k → filePtr s'.disk d' k = filePtr s.disk d k
  indirect_gone : dropped → sfiIndirect d' = 0
  indirect_kept : ¬dropped → sfiIndirect d' = sfiIndirect d
  marked : ∀ b, s'.sfsFreemap.Marked b ↔ s.sfsFreemap.Marked b ∧ ¬(b ≠ 0 ∧
    ((∃ k, cut k ∧ filePtr s.disk d k = b) ∨ dropped ∧ sfiIndirect d = b))
  data : ∀ k, ¬cut k → filePtr s.disk d k ≠ 0 →
    s'.disk (filePtr s.disk d k) = s.disk (filePtr s.disk d k)

/-- File `i` is in memory with the inode `d`, its blocks are its own, and the device works. -/
structure Sfs.Open (s : Sfs) (i : ℕ) (d : DiskBlock) : Prop where
  loaded : ∃ sv, s.loaded i = some sv ∧ sv.svI = d
  holds : s.HoldsFile d
  io : s.IoOk

namespace CutOff

theorem refl (s : Sfs) (d : DiskBlock) : CutOff s d (fun _ => False) False s d where
  gone _ h := h.elim
  kept _ _ := rfl
  indirect_gone h := h.elim
  indirect_kept _ := rfl
  marked b := by simp
  data _ _ _ := rfl

section Number

variable {p q : Prop} {x y b : ℕ}

/-- A number that is cut off under `p` is also cut off under `q`, if that is the same for one
that is there. -/
theorem number_congr (hgone : p → x = 0) (hkept : ¬p → x = y) (h : y ≠ 0 → (p ↔ q)) :
    (q → x = 0) ∧ (¬q → x = y) := by
  by_cases h0 : y = 0
  · have hx : x = 0 := by
      by_cases hp : p
      · exact hgone hp
      · exact (hkept hp).trans h0
    exact ⟨fun _ => hx, fun _ => hx.trans h0.symm⟩
  · rw [← h h0]
    exact ⟨hgone, hkept⟩

/-- The numbers that are left. -/
theorem number_eq_iff (hb : b ≠ 0) (hgone : p → x = 0) (hkept : ¬p → x = y) :
    x = b ↔ ¬p ∧ y = b := by
  by_cases hp : p
  · simp [hp, hgone hp, hb.symm]
  · simp [hp, hkept hp]

end Number

/-- It matters only which of the blocks that are there are cut off. -/
theorem congr (h : CutOff s d cut dropped s' d')
    (hcut : ∀ k, filePtr s.disk d k ≠ 0 → (cut k ↔ cut' k))
    (hdrop : sfiIndirect d ≠ 0 → (dropped ↔ dropped')) : CutOff s d cut' dropped' s' d' where
  gone k := (number_congr (h.gone k) (h.kept k) (hcut k)).1
  kept k := (number_congr (h.gone k) (h.kept k) (hcut k)).2
  indirect_gone := (number_congr h.indirect_gone h.indirect_kept hdrop).1
  indirect_kept := (number_congr h.indirect_gone h.indirect_kept hdrop).2
  marked b := by
    rw [h.marked]
    refine and_congr_right fun _ => not_congr (and_congr_right fun hb => or_congr ?_ ?_)
    · refine exists_congr fun k => and_congr_left ?_
      rintro rfl
      exact hcut k hb
    · refine and_congr_left ?_
      rintro rfl
      exact hdrop hb
  data k hk h0 := h.data k (fun hk' => hk ((hcut k h0).mp hk')) h0

/-- Two truncations, one after the other. -/
theorem trans (h : CutOff s d cut dropped s' d') (h' : CutOff s' d' cut' dropped' s'' d'') :
    CutOff s d (fun k => cut k ∨ cut' k) (dropped ∨ dropped') s'' d'' where
  gone k hk := by
    by_cases hk' : cut' k
    · exact h'.gone k hk'
    · rw [h'.kept k hk', h.gone k (hk.resolve_right hk')]
  kept k hk := by
    rw [h'.kept k fun hk' => hk (Or.inr hk'), h.kept k fun hk' => hk (Or.inl hk')]
  indirect_gone hd := by
    by_cases hd' : dropped'
    · exact h'.indirect_gone hd'
    · rw [h'.indirect_kept hd', h.indirect_gone (hd.resolve_right hd')]
  indirect_kept hd := by
    rw [h'.indirect_kept fun hd' => hd (Or.inr hd'), h.indirect_kept fun hd' => hd (Or.inl hd')]
  marked b := by
    rw [h'.marked, h.marked, and_assoc, ← not_or, ← and_or_left]
    refine and_congr_right fun _ => not_congr (and_congr_right fun hb => ?_)
    -- What the second one finds are the numbers that the first one has left.
    rw [or_or_or_comm, ← exists_or, number_eq_iff hb h.indirect_gone h.indirect_kept]
    refine or_congr (exists_congr fun k => ?_) (by tauto)
    rw [number_eq_iff hb (h.gone k) (h.kept k)]
    tauto
  data k hk h0 := by
    have hkept := h.kept k fun hk' => hk (Or.inl hk')
    rw [← h.data k (fun hk' => hk (Or.inl hk')) h0, ← hkept]
    exact h'.data k (fun hk' => hk (Or.inr hk')) (hkept.trans_ne h0)

/-- The blocks that are left are marked, and each has one place in the file. -/
theorem holdsFile (h : CutOff s d cut dropped s' d') (hs : s.HoldsFile d)
    (hwf : s'.sfsFreemap.WF) (hn : s'.sfsFreemap.nbits = s.sfsFreemap.nbits)
    (hdev : s'.dBlocks = s.dBlocks) : s'.HoldsFile d' := by
  have hptr : ∀ k, filePtr s'.disk d' k ≠ 0 →
      ¬cut k ∧ filePtr s'.disk d' k = filePtr s.disk d k := by
    intro k h0
    have hk : ¬cut k := fun hk => h0 (h.gone k hk)
    exact ⟨hk, h.kept k hk⟩
  have hind : sfiIndirect d' ≠ 0 → ¬dropped ∧ sfiIndirect d' = sfiIndirect d := by
    intro h0
    have hd : ¬dropped := fun hd => h0 (h.indirect_gone hd)
    exact ⟨hd, h.indirect_kept hd⟩
  refine ⟨hwf, ?_, fun h0 => ?_, fun k k' h0 he => ?_, fun k h0 => ?_⟩
  · rintro b ⟨hb, rfl | ⟨k, rfl⟩⟩
    · obtain ⟨hd, he⟩ := hind hb
      rw [he] at hb ⊢
      obtain ⟨hlt, hm⟩ := hs.marked _ ⟨hb, Or.inl rfl⟩
      refine ⟨hn ▸ hlt, (h.marked _).mpr ⟨hm, ?_⟩⟩
      rintro ⟨-, ⟨k, -, hk⟩ | ⟨hd', -⟩⟩
      · exact hs.ne_indirect k (hk.trans_ne hb) hk
      · exact hd hd'
    · obtain ⟨hk, he⟩ := hptr k hb
      rw [he] at hb ⊢
      obtain ⟨hlt, hm⟩ := hs.marked _ ⟨hb, Or.inr ⟨k, rfl⟩⟩
      refine ⟨hn ▸ hlt, (h.marked _).mpr ⟨hm, ?_⟩⟩
      rintro ⟨-, ⟨k', hk', he'⟩ | ⟨-, he'⟩⟩
      · rw [hs.inj k k' hb he'.symm] at hk
        exact hk hk'
      · exact hs.ne_indirect k hb he'.symm
  · rw [(hind h0).2, hdev]
    exact hs.device ((hind h0).2 ▸ h0)
  · have h0' := he ▸ h0
    exact hs.inj k k' ((hptr k h0).2 ▸ h0) ((hptr k h0).2 ▸ (hptr k' h0').2 ▸ he)
  · intro he
    have h0' := he ▸ h0
    exact hs.ne_indirect k ((hptr k h0).2 ▸ h0) ((hptr k h0).2 ▸ (hind h0').2 ▸ he)

end CutOff

/-! ## The steps of `sfs_itrunc` -/

/-- The inode of an open file changes. -/
theorem loaded_setInode {sv : SfsVnode} (g : DiskBlock → DiskBlock) (hi : s.loaded i = some sv) :
    (s.setInode i g).loaded i = some { sv with svI := g sv.svI, svDirty := true } :=
  loaded_updateVnode_self (fun _ => rfl) hi

/-- The file has released `cut` and `dropped` and is open. -/
def OpenCutOff (i : ℕ) (s : Sfs) (d : DiskBlock) (cut : ℕ → Prop) (dropped : Prop)
    (r : Except Errno Unit) (s' : Sfs) : Prop :=
  r = .ok () ∧ ∃ d', s'.Open i d' ∧ CutOff s d cut dropped s' d'

theorem OpenCutOff.refl (h : s.Open i d) :
    OpenCutOff i s d (fun _ => False) False (.ok ()) s :=
  ⟨rfl, d, h, .refl s d⟩

theorem OpenCutOff.congr {r : Except Errno Unit} (h : OpenCutOff i s d cut dropped r s')
    (hcut : ∀ k, filePtr s.disk d k ≠ 0 → (cut k ↔ cut' k))
    (hdrop : sfiIndirect d ≠ 0 → (dropped ↔ dropped')) :
    OpenCutOff i s d cut' dropped' r s' := by
  obtain ⟨hr, d', ho, h⟩ := h
  exact ⟨hr, d', ho, h.congr hcut hdrop⟩

theorem OpenCutOff.of_ioDone {r : Except Errno Unit}
    (h : OpenCutOff i s.ioDone d cut dropped r s') : OpenCutOff i s d cut dropped r s' := by
  obtain ⟨hr, d', ho, h⟩ := h
  exact ⟨hr, d', ho, h.gone, h.kept, h.indirect_gone, h.indirect_kept, h.marked, h.data⟩

/-- One of the direct blocks. -/
theorem itruncDirect_cutOff (h : s.Open i d) (hj : j < 15) :
    (itruncDirect i blocklen j).Does ok s
      (OpenCutOff i s d (fun k => k = j ∧ blocklen ≤ j) False) := by
  obtain ⟨⟨sv, hi, rfl⟩, hh, hio⟩ := h
  have hptr : filePtr s.disk sv.svI j = sfiDirect sv.svI j := filePtr_direct hj
  rcases itruncDirect_eq blocklen hi hh hj with ⟨hb, heq⟩ | ⟨hc, freemap, heq, hn, hwf, hm⟩
  · refine Call.does_of_eq heq ((OpenCutOff.refl ⟨⟨sv, hi, rfl⟩, hh, hio⟩).congr (fun k h0 => ?_)
      fun _ => Iff.rfl)
    rw [false_iff]
    rintro ⟨rfl, hbl⟩
    exact h0 (hptr.trans (hb hbl))
  · have hp : filePtr s.disk (setSfiDirect j 0 sv.svI) = update (filePtr s.disk sv.svI) j 0 :=
      filePtr_setSfiDirect hj (by decide)
    have hrel : CutOff s sv.svI (fun k => k = j ∧ blocklen ≤ j) False
        (s.cutInode i (setSfiDirect j 0) freemap) (setSfiDirect j 0 sv.svI) := by
      refine ⟨?_, fun k hk => ?_, fun h => h.elim, fun _ => ?_, fun b => ?_, fun _ _ _ => rfl⟩
      · rintro k ⟨rfl, -⟩
        exact (congrFun hp k).trans (update_self ..)
      · exact (congrFun hp k).trans (update_of_ne (fun hkj => hk ⟨hkj, hc.1⟩) ..)
      · exact sfiIndirect_setSfiDirect _ _ _ hj
      · refine (hm b).trans (and_congr_right fun _ => not_congr ⟨?_, ?_⟩)
        · rintro rfl
          exact ⟨hc.2, Or.inl ⟨j, ⟨rfl, hc.1⟩, hptr⟩⟩
        · rintro ⟨-, ⟨k, ⟨rfl, -⟩, rfl⟩ | ⟨h, -⟩⟩
          · exact hptr
          · exact h.elim
    refine Call.does_of_eq heq ⟨rfl, _, ⟨⟨_, loaded_setInode _ hi, rfl⟩, ?_, hio⟩, hrel⟩
    exact hrel.holdsFile hh hwf hn rfl

/-- The direct blocks. -/
theorem itruncDirects_cutOff (h : s.Open i d) :
    (Call.forEach (itruncDirect i blocklen) (List.range 15)).Does ok s
      (OpenCutOff i s d (fun k => k < 15 ∧ blocklen ≤ k) False) := by
  -- The blocks in the rest of the list are still there.
  refine Call.Does.forEach (I := fun l s' => (∀ k ∈ l, k < 15) ∧ l.Nodup ∧
    OpenCutOff i s d (fun k => k < 15 ∧ k ∉ l ∧ blocklen ≤ k) False (.ok ()) s') ?_ ?_
    (List.range 15) s ?_
  · rintro k l s' ⟨hlt, hl, -, d', ho, hrel⟩
    refine (itruncDirect_cutOff ho (hlt k List.mem_cons_self)).mono ?_
    rintro r s'' ⟨rfl, d'', ho', hrel'⟩
    have hkl := (List.nodup_cons.mp hl).1
    refine ⟨fun x hx => hlt x (List.mem_cons_of_mem _ hx), hl.of_cons, rfl, d'', ho',
      (hrel.trans hrel').congr (fun x _ => ?_) fun _ => or_self_iff⟩
    have hk := hlt k List.mem_cons_self
    constructor
    · rintro (⟨hx, hxl, hb⟩ | ⟨rfl, hb⟩)
      · exact ⟨hx, fun h => hxl (List.mem_cons_of_mem _ h), hb⟩
      · exact ⟨hk, hkl, hb⟩
    · rintro ⟨hx, hxl, hb⟩
      by_cases hxk : x = k
      · exact Or.inr ⟨hxk, hxk ▸ hb⟩
      · refine Or.inl ⟨hx, fun h => ?_, hb⟩
        exact (List.mem_cons.mp h).elim hxk hxl
  · rintro s' ⟨-, -, h'⟩
    exact h'.congr (fun k _ => by simp) fun _ => Iff.rfl
  · refine ⟨fun k hk => List.mem_range.mp hk, List.nodup_range, (OpenCutOff.refl h).congr
      (fun k _ => ?_) fun _ => Iff.rfl⟩
    rw [false_iff]
    rintro ⟨hk, hkl, -⟩
    exact hkl (List.mem_range.mpr hk)

section Indirect

variable {w' : DiskBlock}

/-- The numbers of the blocks that the loop over the indirect block frees. -/
theorem freed_iff (hid : sfiIndirect d ≠ 0) (b : ℕ) :
    (∃ k ∈ List.range 128, Freed blocklen (s.disk (sfiIndirect d)) k ∧
      getWord (s.disk (sfiIndirect d)) k = b) ↔
    b ≠ 0 ∧ ∃ k, (15 ≤ k ∧ blocklen < k) ∧ filePtr s.disk d k = b := by
  constructor
  · rintro ⟨k, hk, hf, rfl⟩
    exact ⟨hf.2, 15 + k, ⟨by omega, hf.1⟩, filePtr_entry (List.mem_range.mp hk) hid⟩
  · rintro ⟨h0, k, ⟨hk, hb⟩, rfl⟩
    have hlt := lt_of_filePtr_ne_zero h0
    obtain ⟨j, rfl⟩ := Nat.exists_eq_add_of_le hk
    have hptr : filePtr s.disk d (15 + j) = getWord (s.disk (sfiIndirect d)) j :=
      filePtr_entry (by omega) hid
    exact ⟨j, List.mem_range.mpr (by omega), ⟨hb, hptr ▸ h0⟩, hptr.symm⟩

/-- All entries are clear : the indirect block is freed, too. -/
theorem freeIndirect_cutOff (h : s.Open i d) (hid : sfiIndirect d ≠ 0)
    (he : EntriesFreed blocklen (List.range 128) (s.disk (sfiIndirect d)) s w' s')
    (hz : ∀ k, 15 ≤ k → k ≤ blocklen → filePtr s.disk d k = 0) :
    (sfsBfree (sfiIndirect d) >>= fun _ => setInode i (setSfiIndirect 0)).Does ok s'
      (OpenCutOff i s d (fun k => 15 ≤ k ∧ blocklen < k) True) := by
  obtain ⟨⟨sv, hi, rfl⟩, hh, hio⟩ := h
  obtain ⟨freemap, heq, hn, hwf, hm⟩ := freeIndirect_eq i hh hid he
  have hind : sfiIndirect (setSfiIndirect 0 sv.svI) = 0 := by
    rw [sfiIndirect_setSfiIndirect, Nat.zero_mod]
  have hrel : CutOff s sv.svI (fun k => 15 ≤ k ∧ blocklen < k) True
      (s.cutInode i (setSfiIndirect 0) freemap) (setSfiIndirect 0 sv.svI) := by
    refine ⟨fun k hk => filePtr_no_indirect hk.1 hind, fun k hk => ?_, fun _ => hind,
      fun h => absurd trivial h, fun b => ?_, fun _ _ _ => rfl⟩
    · by_cases hk' : k < 15
      · rw [filePtr_direct hk', filePtr_direct hk', sfiDirect_setSfiIndirect _ _ _ hk']
      · rw [filePtr_no_indirect (not_lt.mp hk') hind, hz k (by omega) (by omega)]
    · refine (hm b).trans ?_
      rw [freed_iff hid, and_assoc, ← not_or]
      refine and_congr_right fun _ => not_congr ⟨?_, ?_⟩
      · rintro (⟨h0, hk⟩ | rfl)
        · exact ⟨h0, Or.inl hk⟩
        · exact ⟨hid, Or.inr ⟨trivial, rfl⟩⟩
      · rintro ⟨h0, hk | ⟨-, rfl⟩⟩
        · exact Or.inl ⟨h0, hk⟩
        · exact Or.inr rfl
  refine Call.does_of_eq heq ⟨rfl, _, ⟨⟨_, loaded_setInode _ hi, rfl⟩, ?_, hio⟩, hrel⟩
  exact hrel.holdsFile hh hwf hn rfl

/-- Some entries were cleared, and the indirect block is written. -/
theorem writeEntries_cutOff (h : s.Open i d) (hid : sfiIndirect d ≠ 0)
    (he : EntriesFreed blocklen (List.range 128) (s.disk (sfiIndirect d)) s w' s')
    (hf : ∃ k ∈ List.range 128, Freed blocklen (s.disk (sfiIndirect d)) k) :
    (sfsWriteIdblock (sfiIndirect d) w').Does ok s'
      (OpenCutOff i s d (fun k => 15 ≤ k ∧ blocklen < k) False) := by
  obtain ⟨⟨sv, hi, rfl⟩, hh, hio⟩ := h
  set b := sfiIndirect sv.svI with hb
  have hs' := he.some hf
  have hio' : s'.io 0 = true := by
    rw [hs']
    exact hio 0
  have hwr : sfsWriteIdblock b w' s' = _ := sfsWriteIdblock_eq (by
    rw [hs']
    exact hh.device hid)
  rw [if_pos hio'] at hwr
  set s₁ : Sfs := s'.idNoted.ioDone.withVolume (s'.setDisk b w') with hs₁
  have hdisk : s₁.disk = update s.disk b w' := by
    rw [hs₁, hs']
    rfl
  have hne : ∀ k, filePtr s.disk sv.svI k ≠ 0 → s₁.disk (filePtr s.disk sv.svI k) =
      s.disk (filePtr s.disk sv.svI k) := by
    intro k h0
    rw [hdisk, update_of_ne (hh.ne_indirect k h0)]
  have hentry : ∀ k, 15 ≤ k → filePtr s₁.disk sv.svI k =
      if blocklen < k then 0 else filePtr s.disk sv.svI k := by
    intro k hk
    by_cases hbig : 143 ≤ k
    · rw [filePtr_big hbig, filePtr_big hbig, ite_self]
    · obtain ⟨j, rfl⟩ := Nat.exists_eq_add_of_le hk
      rw [filePtr_entry (show j < 128 by omega) hid, filePtr_entry (show j < 128 by omega) hid,
        ← hb, hdisk, update_self, he.word]
      exact if_congr (and_iff_right (List.mem_range.mpr (by omega))) rfl rfl
  have hrel : CutOff s sv.svI (fun k => 15 ≤ k ∧ blocklen < k) False s₁ sv.svI := by
    refine ⟨fun k hk => ?_, fun k hk => ?_, fun h => h.elim, fun _ => rfl, fun x => ?_,
      fun k _ h0 => hne k h0⟩
    · rw [hentry k hk.1, if_pos hk.2]
    · by_cases hk' : k < 15
      · rw [filePtr_direct hk', filePtr_direct hk']
      · rw [hentry k (not_lt.mp hk'), if_neg fun hlt => hk ⟨not_lt.mp hk', hlt⟩]
    · rw [show s₁.sfsFreemap.Marked x ↔ _ from he.marked x, freed_iff hid]
      simp
  refine Call.does_of_eq hwr ⟨rfl, _, ⟨⟨sv, ?_, rfl⟩, ?_, fun n => ?_⟩, hrel⟩
  · rw [hs₁, hs']
    exact hi
  · exact hrel.holdsFile hh he.wf he.nbits (by rw [hs₁, hs']; rfl)
  · rw [hs₁, hs']
    exact hio (n + 1)

/-- The entries that are left are those up to `blocklen`. -/
theorem entries_clear_iff (hid : sfiIndirect d ≠ 0)
    (he : EntriesFreed blocklen (List.range 128) (s.disk (sfiIndirect d)) s w' s') :
    (List.range 128).any (getWord w' · ≠ 0) = false ↔
      ∀ k, 15 ≤ k → k ≤ blocklen → filePtr s.disk d k = 0 := by
  rw [List.any_eq_false]
  constructor
  · intro hz k hk hb
    by_cases hbig : 143 ≤ k
    · exact filePtr_big hbig
    · obtain ⟨j, rfl⟩ := Nat.exists_eq_add_of_le hk
      have hj : getWord w' j = 0 := by
        simpa using hz j (List.mem_range.mpr (by omega))
      rw [he.word, if_neg fun h => absurd h.2 (by omega)] at hj
      rw [filePtr_entry (by omega) hid, hj]
  · intro hz j hj
    have hptr : filePtr s.disk d (15 + j) = getWord (s.disk (sfiIndirect d)) j :=
      filePtr_entry (List.mem_range.mp hj) hid
    rw [decide_eq_true_eq, not_not, he.word]
    split_ifs with hc
    · rfl
    · have hb : ¬blocklen < 15 + j := fun hb => hc ⟨hj, hb⟩
      rw [← hptr]
      exact hz (15 + j) (by omega) (by omega)

/-- The indirect block. -/
theorem itruncIndirect_cutOff (h : s.Open i d) :
    (itruncIndirect i blocklen).Does ok s (OpenCutOff i s d
      (fun k => 15 ≤ k ∧ blocklen < k ∧ blocklen < 142)
      (blocklen < 142 ∧ ∀ k, 15 ≤ k → k ≤ blocklen → filePtr s.disk d k = 0)) := by
  obtain ⟨⟨sv, hi, rfl⟩, hh, hio⟩ := h
  unfold itruncIndirect
  rw [Call.does_bind_of_ok (getVnode_eq hi)]
  dsimp only
  split_ifs with hc
  · obtain ⟨hlen, hid⟩ := hc
    refine does_readblock (hh.device hid) (fun hbad => absurd (hio 0) hbad) fun _ => ?_
    have ho : s.ioDone.Open i sv.svI := ⟨⟨sv, hi, rfl⟩, hh, fun n => hio (n + 1)⟩
    obtain ⟨w', s', heq, he⟩ := itruncEntries_file (s := s.ioDone) blocklen hh rfl hid
    have heq' : itruncEntries blocklen (List.range 128)
      (s.disk (sfiIndirect sv.svI), false, false) s.ioDone = _ := heq
    rw [Call.does_bind_of_ok heq']
    have hleft := entries_clear_iff hid he
    split_ifs with hz hd
    · refine (freeIndirect_cutOff ho hid he (hleft.mp hz)).mono fun r s'' hr => ?_
      exact hr.of_ioDone.congr (fun k _ => by simp only [hlen, and_true])
        fun _ => ⟨fun _ => ⟨hlen, hleft.mp hz⟩, fun _ => trivial⟩
    · obtain ⟨k, hk, hf⟩ := List.any_eq_true.mp hd
      have hwr : (sfsWriteIdblock _ w').Does ok s' _ :=
        writeEntries_cutOff ho hid he ⟨k, hk, of_decide_eq_true hf⟩
      refine hwr.mono fun r s'' hr => ?_
      exact hr.of_ioDone.congr (fun k _ => by simp only [hlen, and_true])
        fun _ => ⟨fun h => h.elim, fun h => hz (hleft.mpr h.2)⟩
    · have hno : ∀ k ∈ List.range 128, ¬Freed blocklen (s.disk (sfiIndirect sv.svI)) k :=
        fun k hk hf => hd (List.any_eq_true.mpr ⟨k, hk, decide_eq_true hf⟩)
      obtain rfl : s' = s.ioDone := he.none hno
      refine (OpenCutOff.refl ho).of_ioDone.congr (fun k h0 => ?_)
        fun _ => ⟨fun h => h.elim, fun h => hz (hleft.mpr h.2)⟩
      rw [false_iff]
      rintro ⟨hk, hb, -⟩
      obtain ⟨j, hj, hf, -⟩ := (freed_iff (s := s) hid _).mpr ⟨h0, k, ⟨hk, hb⟩, rfl⟩
      exact hno j hj hf
  · refine (OpenCutOff.refl ⟨⟨sv, hi, rfl⟩, hh, hio⟩).congr (fun k h0 => ?_) fun hid => ?_
    · rw [false_iff]
      rintro ⟨hk, -, hb⟩
      exact h0 (filePtr_no_indirect hk (by_contra fun hid => hc ⟨hb, hid⟩))
    · rw [false_iff]
      exact fun h => hc ⟨h.1, hid⟩

end Indirect

/-- The size has no part in it. -/
theorem setSize_cutOff (n : ℕ) (h : s.Open i d) :
    (setInode i (setSfiSize n)).Does ok s fun r s' => r = .ok () ∧ s'.Open i (setSfiSize n d) ∧
      CutOff s d (fun _ => False) False s' (setSfiSize n d) := by
  obtain ⟨⟨sv, hi, rfl⟩, hh, hio⟩ := h
  have hptr : filePtr s.disk (setSfiSize n sv.svI) = filePtr s.disk sv.svI :=
    filePtr_congr (fun _ _ => by simp) (by simp) fun _ => rfl
  have hrel : CutOff s sv.svI (fun _ => False) False
      (s.withVolume (s.setInode i (setSfiSize n))) (setSfiSize n sv.svI) := by
    refine ⟨fun _ h => h.elim, fun k _ => congrFun hptr k, fun h => h.elim, fun _ => by simp,
      fun b => ?_, fun _ _ _ => rfl⟩
    simp only [false_and, exists_false, or_self, and_false, not_false_eq_true, and_true]
    rfl
  exact ⟨rfl, ⟨⟨_, loaded_setInode _ hi, rfl⟩, hrel.holdsFile hh hh.wf rfl rfl, hio⟩, hrel⟩

/-- What `sfs_itrunc` releases. -/
theorem sfsItrunc_cutOff (len : ℕ) (h : s.Open i d) :
    (sfsItrunc i len).Does ok s fun r s' => r = .ok () ∧ ∃ d', s'.Open i d' ∧
      sfiSize d' = len % 2 ^ 32 ∧ CutOff s d
        (fun k => k < 15 ∧ itruncBlocklen len ≤ k ∨
          15 ≤ k ∧ itruncBlocklen len < k ∧ itruncBlocklen len < 142)
        (itruncBlocklen len < 142 ∧
          ∀ k, 15 ≤ k → k ≤ itruncBlocklen len → filePtr s.disk d k = 0) s' d' := by
  refine (itruncDirects_cutOff h).bind (fun e s' he => absurd he.1 (by simp)) ?_
  rintro _ s₁ ⟨-, d₁, ho₁, hrel₁⟩
  refine (itruncIndirect_cutOff ho₁).bind (fun e s' he => absurd he.1 (by simp)) ?_
  rintro _ s₂ ⟨-, d₂, ho₂, hrel₂⟩
  refine (setSize_cutOff _ ho₂).mono ?_
  rintro r s₃ ⟨hr, ho₃, hrel₃⟩
  refine ⟨hr, _, ho₃, ?_, ((hrel₁.trans hrel₂).trans hrel₃).congr (fun k _ => ?_) fun _ => ?_⟩
  · rw [sfiSize_setSfiSize]
    omega
  · rw [or_false]
  · rw [or_false, false_or]
    refine and_congr_right fun _ => forall_congr' fun k => forall_congr' fun hk => ?_
    rw [hrel₁.kept k fun h => absurd h.1 (not_lt.mpr hk)]

/-! ## The blocks past the new end -/

theorem itruncBlocklen_eq {len : ℕ} (h : len ≤ 143 * 512) :
    itruncBlocklen len = (len + 511) / 512 := by
  unfold itruncBlocklen
  rw [Int.tdiv_eq_ediv_of_nonneg (by omega)]
  omega

/-- A truncation releases exactly the blocks past the new end, and the indirect block exactly if
it refers to no block that stays, if and only if there is no block at the new end in the indirect
block, and an indirect block that `sfs_itrunc` does not look at refers to some block. -/
theorem trunc_releases_iff {sv : SfsVnode} {len : ℕ} (hi : s.loaded i = some sv)
    (hh : s.HoldsFile sv.svI) (hio : s.IoOk) (hlen : len ≤ (15 + 128) * 512) :
    (∃ s' sv', sfsItrunc i len s = .ok (.ok (), s') ∧ s'.loaded i = some sv' ∧
      CutOff s sv.svI (fun k => (len + 511) / 512 ≤ k)
        (∀ k, 15 ≤ k → k < (len + 511) / 512 → filePtr s.disk sv.svI k = 0) s' sv'.svI) ↔
      (15 ≤ (len + 511) / 512 → filePtr s.disk sv.svI ((len + 511) / 512) = 0) ∧
      (142 ≤ (len + 511) / 512 → sfiIndirect sv.svI = 0 ∨
        ∃ k, 15 ≤ k ∧ filePtr s.disk sv.svI k ≠ 0) := by
  have hdoes : (sfsItrunc i len).Does (fun _ => False) s _ :=
    sfsItrunc_cutOff len ⟨⟨sv, hi, rfl⟩, hh, hio⟩
  rw [itruncBlocklen_eq hlen] at hdoes
  set blocklen := (len + 511) / 512 with hbl
  obtain ⟨r, s', hrun, rfl, d', ⟨⟨sv', hi', rfl⟩, -, -⟩, -, hrel⟩ := hdoes.exists_ok
  constructor
  · rintro ⟨s'', sv'', hrun', hi'', hspec⟩
    rw [hrun] at hrun'
    cases hrun'
    rw [hi'] at hi''
    cases hi''
    refine ⟨fun h15 => ?_, fun h142 => or_iff_not_imp_left.mpr fun hid => ?_⟩
    · rw [← hrel.kept blocklen (by omega), hspec.gone blocklen le_rfl]
    · by_contra hno
      refine hid ?_
      rw [← hrel.indirect_kept (by omega), hspec.indirect_gone fun k hk _ => ?_]
      by_contra h0
      exact hno ⟨k, hk, h0⟩
  · rintro ⟨hend, hfull⟩
    refine ⟨s', sv', hrun, hi', hrel.congr (fun k h0 => ?_) fun hid => ?_⟩
    · have hlt := lt_of_filePtr_ne_zero h0
      have hne : 15 ≤ blocklen → k ≠ blocklen := by
        rintro h15 rfl
        exact h0 (hend h15)
      omega
    · refine ⟨fun h k hk hlt => h.2 k hk hlt.le, fun hz => ⟨?_, fun k hk hlt => ?_⟩⟩
      · by_contra h142
        obtain ⟨k, hk, h0⟩ := (hfull (not_lt.mp h142)).resolve_left hid
        have hlt := lt_of_filePtr_ne_zero h0
        refine h0 (hz k hk (lt_of_le_of_ne (by omega) ?_))
        rintro rfl
        exact h0 (hend hk)
      · rcases hlt.lt_or_eq with hlt | rfl
        · exact hz k hk hlt
        · exact hend hk

theorem filePtr_zeroBlock (disk : ℕ → DiskBlock) (k : ℕ) : filePtr disk zeroBlock k = 0 := by
  have hind : sfiIndirect zeroBlock = 0 := getWord_zero 17
  by_cases hk : k < 15
  · rw [filePtr_direct hk]
    exact getWord_zero _
  · exact filePtr_no_indirect (not_lt.mp hk) hind

/-- An inode with sixteen blocks, the last one in the indirect block `20`. -/
def sixteenInode : DiskBlock :=
  setSfiIndirect 20 ((List.range 15).foldl (fun d k => setSfiDirect k (4 + k) d)
    (setSfiSize (16 * 512) zeroBlock))

/-- The file with this inode. -/
def sixteenBlocks : Sfs :=
  .withInode 64 sixteenInode fun b => if b = 20 then setWord zeroBlock 0 21 else zeroBlock

theorem filePtr_sixteen {k : ℕ} (h0 : filePtr sixteenBlocks.disk sixteenInode k ≠ 0) :
    k < 16 ∧ filePtr sixteenBlocks.disk sixteenInode k = if k = 15 then 21 else 4 + k := by
  have hptr : ∀ k < 143, filePtr sixteenBlocks.disk sixteenInode k =
      if k < 16 then if k = 15 then 21 else 4 + k else 0 := by
    decide +kernel
  have heq := hptr k (lt_of_filePtr_ne_zero h0)
  by_cases hk : k < 16
  · exact ⟨hk, heq.trans (if_pos hk)⟩
  · exact absurd (heq.trans (if_neg hk)) h0

theorem holdsFile_sixteen : sixteenBlocks.HoldsFile sixteenInode := by
  have hind : sfiIndirect sixteenInode = 20 := by decide +kernel
  refine ⟨fun i _ _ => Bitmap.marked_full 64 i, ?_, fun _ => hind ▸ by decide, ?_, ?_⟩
  · rintro b ⟨h0, rfl | ⟨k, rfl⟩⟩
    · rw [hind]
      exact ⟨by decide, Bitmap.marked_full 64 _⟩
    · obtain ⟨hk, heq⟩ := filePtr_sixteen h0
      refine ⟨?_, Bitmap.marked_full 64 _⟩
      change filePtr sixteenBlocks.disk sixteenInode k < 64
      rw [heq]
      split_ifs <;> omega
  · intro k k' h0 he
    obtain ⟨hk, heq⟩ := filePtr_sixteen h0
    obtain ⟨hk', heq'⟩ := filePtr_sixteen (he ▸ h0)
    rw [heq, heq'] at he
    split_ifs at he <;> omega
  · intro k h0
    obtain ⟨hk, heq⟩ := filePtr_sixteen h0
    rw [heq, hind]
    split_ifs <;> omega

/-- All blocks but the first are released, and the indirect block. -/
theorem trunc_releases_iff_sixteen : ∃ s' sv', sfsItrunc 1 (512 : ℕ) sixteenBlocks =
      .ok (.ok (), s') ∧ s'.loaded 1 = some sv' ∧
    CutOff sixteenBlocks sixteenInode (fun k => (512 + 511) / 512 ≤ k)
      (∀ k, 15 ≤ k → k < (512 + 511) / 512 →
        filePtr sixteenBlocks.disk sixteenInode k = 0) s' sv'.svI :=
  (trunc_releases_iff (show sixteenBlocks.loaded 1 = some ⟨sixteenInode, 1, false, 1⟩ from rfl)
    holdsFile_sixteen (fun _ => rfl)
    (show 512 ≤ (15 + 128) * 512 by decide)).mpr
    ⟨fun h => absurd h (by decide), fun h => absurd h (by decide)⟩

/-- Block `15` is kept when the file is truncated to fifteen blocks. -/
theorem trunc_keeps_block :
    (sfsItrunc 1 (15 * 512) sixteenBlocks).toOption.map (fun r => (r.1.toOption,
      (r.2.loaded 1).map fun sv => (sfiSize sv.svI, filePtr r.2.disk sv.svI 15),
      bitmapIsset r.2.sfsFreemap 21)) = some (some (), some (15 * 512, 21), true) := by
  decide +kernel

end OS161
