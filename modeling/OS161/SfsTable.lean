import OS161.SfsUpdate

/-!
# Steps that take blocks from a file, and the vnode table

`Phys.detachDirect`, `Phys.detachIndirect` and `Phys.clearEntries` take blocks from a file,
which are loose afterwards. `Phys.load` and `Phys.loadNew` put a vnode into the table, for an
inode on disk and for a new one, and `Phys.unload` and `Phys.discard` remove it, for a file that
has a name and for one that has none. `Phys.writeInode` writes an inode back.
-/

namespace OS161

open Function

namespace Volume

variable {v v' : Volume} {loose loose' : Set ℕ} {b i j : ℕ} {w : DiskBlock} {sv : SfsVnode}

/-! ## Taking blocks from a file -/

/-- Numbers are taken out of the inode of a file. -/
theorem Phys.detach {g : DiskBlock → DiskBlock} {D : Set ℕ} (h : v.Phys loose)
    (hi : v.loaded i = some sv) (hi1 : i ≠ 1) (hslot : ∀ k,
      slotOf v.disk (g sv.svI) k = slotOf v.disk sv.svI k ∨ slotOf v.disk (g sv.svI) k = 0)
    (hD : ∀ x, x ∈ D ↔
      x ≠ 0 ∧ ∃ k, slotOf v.disk sv.svI k = x ∧ slotOf v.disk (g sv.svI) k = 0) :
    (v.setInode i g).Phys (D ∪ loose) ∧ Shrinks i v (v.setInode i g) := by
  have hr : Reload i _ v (v.setInode i g) := reload_update (fun _ => rfl) hi
  have hsame : SameBut i v (v.setInode i g) :=
    sameBut_update (fun _ => rfl) hi fun h1 => absurd h1 hi1
  have hdrop : SameBut.dropped i v (v.setInode i g) = D := by
    ext x
    rw [SameBut.mem_dropped_iff (live_of_loaded hi), hr.slot_self, slot_of_loaded hi, hD]
  rw [← slot_of_loaded hi, ← hr.slot_self] at hslot
  obtain ⟨hheld, hshr⟩ := hsame.detach h.held hslot
  rw [hdrop] at hheld
  exact ⟨h.of_update (fun _ => rfl) hi (h.counted sv (loaded_eq_some hi).1) nofun hheld, hshr⟩

/-- A direct block is taken from a file. -/
theorem Phys.detachDirect (h : v.Phys loose) (hi : v.loaded i = some sv) (hi1 : i ≠ 1)
    (hj : j < 15) (hb : sfiDirect sv.svI j = b) (hb0 : b ≠ 0) :
    (v.setInode i (setSfiDirect j 0)).Phys (insert b loose) ∧
      Shrinks i v (v.setInode i (setSfiDirect j 0)) := by
  have hslot : slotOf v.disk (setSfiDirect j 0 sv.svI) =
      update (slotOf v.disk sv.svI) (some j) 0 :=
    slotOf_update_some (sfiIndirect_setSfiDirect _ _ _ hj) (filePtr_setSfiDirect hj (by decide))
  have hb' : slotOf v.disk sv.svI (some j) = b := (filePtr_direct hj).trans hb
  refine h.detach (D := {b}) hi hi1 (fun k => ?_) fun x => ?_
  · rw [hslot]
    by_cases hk : k = some j
    · exact Or.inr (hk ▸ update_self ..)
    · exact Or.inl (update_of_ne hk ..)
  · rw [hslot]
    constructor
    · rintro rfl
      exact ⟨hb0, some j, hb', update_self ..⟩
    · rintro ⟨hx0, k, hk, h0⟩
      by_cases hkj : k = some j
      · rw [hkj, hb'] at hk
        exact hk.symm
      · rw [update_of_ne hkj] at h0
        exact absurd (hk.symm.trans h0) hx0

/-- The indirect block, or an entry of it. -/
theorem exists_slotOf {disk : ℕ → DiskBlock} {d : DiskBlock} {P : Option ℕ → Prop} {x : ℕ}
    (hx : x ≠ 0) (hid : sfiIndirect d ≠ 0) (hP : ∀ j < 15, P (some j) → filePtr disk d j = 0) :
    (∃ k, slotOf disk d k = x ∧ P k) ↔ sfiIndirect d = x ∧ P none ∨
      ∃ j < 128, getWord (disk (sfiIndirect d)) j = x ∧ P (some (15 + j)) := by
  constructor
  · rintro ⟨_ | fb, hk, hp⟩
    · exact Or.inl ⟨hk, hp⟩
    · by_cases hfb : fb < 15
      · exact absurd (hk.symm.trans (hP fb hfb hp)) hx
      · obtain ⟨j, rfl⟩ := Nat.exists_eq_add_of_le (not_lt.mp hfb)
        have hlt := lt_of_filePtr_ne_zero (hk.trans_ne hx)
        have hj : j < 128 := by omega
        exact Or.inr ⟨j, hj, (filePtr_entry hj hid).symm.trans hk, hp⟩
  · rintro (⟨hk, hp⟩ | ⟨j, hj, hk, hp⟩)
    · exact ⟨none, hk, hp⟩
    · exact ⟨some (15 + j), (filePtr_entry hj hid).trans hk, hp⟩

/-- The indirect block is taken from a file, with everything it refers to. -/
theorem Phys.detachIndirect (h : v.Phys loose) (hi : v.loaded i = some sv) (hi1 : i ≠ 1)
    (hb : sfiIndirect sv.svI = b) (hb0 : b ≠ 0) :
    (v.setInode i (setSfiIndirect 0)).Phys
        ({x | x = b ∨ x ≠ 0 ∧ ∃ k < 128, getWord (v.disk b) k = x} ∪ loose) ∧
      Shrinks i v (v.setInode i (setSfiIndirect 0)) := by
  subst hb
  have hind : slotOf v.disk (setSfiIndirect 0 sv.svI) none = 0 :=
    (sfiIndirect_setSfiIndirect ..).trans (Nat.zero_mod _)
  have hdir : ∀ fb < 15, slotOf v.disk (setSfiIndirect 0 sv.svI) (some fb) =
      filePtr v.disk sv.svI fb := by
    intro fb hfb
    rw [slotOf, filePtr_direct hfb, filePtr_direct hfb, sfiDirect_setSfiIndirect _ _ _ hfb]
  have hent : ∀ fb, 15 ≤ fb → slotOf v.disk (setSfiIndirect 0 sv.svI) (some fb) = 0 :=
    fun fb hfb => filePtr_no_indirect hfb hind
  refine h.detach hi hi1 (fun k => ?_) fun x => ?_
  · rcases k with _ | fb
    · exact Or.inr hind
    · by_cases hfb : fb < 15
      · exact Or.inl (hdir fb hfb)
      · exact Or.inr (hent fb (not_lt.mp hfb))
  · by_cases hx : x = 0
    · simp [hx, hb0.symm]
    · rw [exists_slotOf hx hb0 fun j hj hp => (hdir j hj).symm.trans hp]
      simp [hx, hind, hent, eq_comm]

/-- Entries of an indirect block are cleared. -/
theorem Phys.clearEntries (h : v.Phys loose) (hi : v.Live i) (hi1 : i ≠ 1)
    (hb : sfiIndirect (v.inode i) = b) (hb0 : b ≠ 0)
    (hw : ∀ k < 128, getWord w k = getWord (v.disk b) k ∨ getWord w k = 0) :
    (v.setDisk b w).Phys
        ({x | x ≠ 0 ∧ ∃ k < 128, getWord (v.disk b) k = x ∧ getWord w k = 0} ∪ loose) ∧
      (v.setDisk b w).abs = v.abs.setFile i (viewOf (v.setDisk b w).disk (v.inode i)) ∧
      Shrinks i v (v.setDisk b w) := by
  have href : v.Ref (.indirect i) b := ⟨hi, hb0, hb⟩
  obtain ⟨hsame, hinode, hothers⟩ :=
    sameBut_writeIndirect (w := w) h hi hb hb0 fun h1 => absurd h1 hi1
  have hind : sfiIndirect ((v.setDisk b w).inode i) = b := (congrArg sfiIndirect hinode).trans hb
  have hnew : ∀ k < 128, (v.setDisk b w).slot i (some (15 + k)) = getWord w k := by
    intro k hk
    refine (filePtr_entry hk (hind.trans_ne hb0)).trans ?_
    rw [hind, disk_setDisk_self]
  have hdir : ∀ fb < 15, (v.setDisk b w).slot i (some fb) = v.slot i (some fb) := by
    intro fb hfb
    rw [slot, slot, hinode, slotOf, slotOf, filePtr_direct hfb, filePtr_direct hfb]
  have hdrop : SameBut.dropped i v (v.setDisk b w) =
      {x | x ≠ 0 ∧ ∃ k < 128, getWord (v.disk b) k = x ∧ getWord w k = 0} := by
    ext x
    rw [SameBut.mem_dropped_iff hi]
    refine and_congr_right fun hx => (exists_slotOf hx (hb.trans_ne hb0) fun j hj hp =>
      (hdir j hj).symm.trans hp).trans ?_
    rw [or_iff_right fun h' => hb0 (hind.symm.trans h'.2), hb]
    exact exists_congr fun k => and_congr_right fun hk => by rw [hnew k hk]
  obtain ⟨hheld, hshr⟩ := hsame.detach h.held fun k => by
    rcases k with _ | fb
    · exact Or.inl (hind.trans hb.symm)
    by_cases hfb : fb < 15
    · exact Or.inl (hdir fb hfb)
    by_cases hfb' : fb < 143
    · obtain ⟨k, rfl⟩ := Nat.exists_eq_add_of_le (not_lt.mp hfb)
      have hk : k < 128 := by omega
      have hold : v.slot i (some (15 + k)) = getWord (v.disk b) k := by
        refine (filePtr_entry hk (hb.trans_ne hb0)).trans ?_
        rw [hb]
      rw [hnew k hk, hold]
      exact hw k hk
    · exact Or.inr (filePtr_big (not_lt.mp hfb'))
  rw [hdrop] at hheld
  refine ⟨h.of_setDisk (h.writable (k := none) href) hheld, ?_, hshr⟩
  rw [abs_setFile hsame.nblocks hsame.live hi hothers, view, hinode]
  rfl

/-! ## The table of vnodes -/

/-- A vnode joins the table. -/
def addVnode (v : Volume) (sv : SfsVnode) : Volume :=
  { v with sfsVnodes := v.sfsVnodes ++ [sv] }

/-- A vnode leaves the table. -/
def dropVnode (v : Volume) (i : ℕ) : Volume :=
  { v with sfsVnodes := v.sfsVnodes.eraseP fun sv => sv.svIno = i }

theorem reload_add (h : ¬v.Loaded sv.svIno) : Reload sv.svIno (some sv) v (v.addVnode sv) := by
  refine ⟨rfl, eq_update_iff.mpr ⟨?_, fun j hj => ?_⟩⟩ <;> unfold loaded addVnode
  · have hn : v.sfsVnodes.find? (fun x => x.svIno = sv.svIno) = none :=
      Option.not_isSome_iff_eq_none.mp h
    simp [hn]
  · simp [Ne.symm hj]

theorem loaded_dropVnode (hn : (v.sfsVnodes.map SfsVnode.svIno).Nodup) (i j : ℕ) :
    (v.dropVnode i).loaded j = if j = i then none else v.loaded j := by
  unfold loaded dropVnode
  generalize v.sfsVnodes = l at hn
  induction l with
  | nil => simp
  | cons x l ih =>
    rw [List.map_cons, List.nodup_cons] at hn
    by_cases hx : x.svIno = i
    · rw [List.eraseP_cons_of_pos (by simpa using hx)]
      by_cases hj : j = i
      · subst hj
        rw [if_pos rfl, List.find?_eq_none]
        rintro y hy hyj
        rw [decide_eq_true_eq] at hyj
        exact hn.1 (hx.trans hyj.symm ▸ List.mem_map_of_mem hy)
      · have hxj : x.svIno ≠ j := fun hxj => hj (hxj.symm.trans hx)
        rw [if_neg hj, List.find?_cons_of_neg (by simpa using hxj)]
    · rw [List.eraseP_cons_of_neg (by simpa using hx)]
      by_cases hxj : x.svIno = j
      · rw [List.find?_cons_of_pos (by simpa using hxj),
          List.find?_cons_of_pos (by simpa using hxj), if_neg fun hj => hx (hxj.trans hj)]
      · rw [List.find?_cons_of_neg (by simpa using hxj),
          List.find?_cons_of_neg (by simpa using hxj), ih hn.2]

theorem reload_drop (hn : (v.sfsVnodes.map SfsVnode.svIno).Nodup) (i : ℕ) :
    Reload i none v (v.dropVnode i) :=
  ⟨rfl, funext fun j => (loaded_dropVnode hn i j).trans (update_apply ..).symm⟩

/-- The inode is what it was. -/
theorem Reload.same {y : Option SfsVnode} (h : Reload i y v v') (hn : v'.sbNblocks = v.sbNblocks)
    (hi : v'.inode i = v.inode i) (hl : v'.Live i ↔ v.Live i) :
    v'.abs = v.abs.setRefs i (y.elim 0 SfsVnode.vnRefcount) ∧ ∀ o x, v'.Ref o x ↔ v.Ref o x := by
  have hinode : ∀ j, v'.inode j = v.inode j := fun j => by
    by_cases hj : j = i
    · rw [hj, hi]
    · exact h.inode_ne hj
  have hview : ∀ j, v'.view j = v.view j := fun j => by
    unfold view
    rw [hinode, h.disk]
  have hlive : ∀ j, v'.Live j ↔ v.Live j := fun j => by
    by_cases hj : j = i
    · rw [hj, hl]
    · exact or_congr_right (or_congr (h.loaded_ne hj) (by rw [hview]))
  refine ⟨Fs.ext hn (funext fun j => abs_file_congr (hlive j) fun _ => hview j) h.refs_eq,
    fun o x => ref_congr hn hlive fun j k _ _ => ?_⟩
  unfold slot
  rw [hinode, h.disk]

theorem slotOf_eq_zero {disk : ℕ → DiskBlock} {d : DiskBlock} (hind : sfiIndirect d = 0)
    (hdir : ∀ k < 15, sfiDirect d k = 0) : ∀ k, slotOf disk d k = 0
  | none => hind
  | some fb => by
    by_cases hfb : fb < 15
    · exact (filePtr_direct hfb).trans (hdir fb hfb)
    · exact filePtr_no_indirect (not_lt.mp hfb) hind

/-- A file without blocks is there now. -/
theorem Reload.newFile (h : Reload i (some sv) v v') (hn : v'.sbNblocks = v.sbNblocks)
    (hdead : ¬v.Live i) (hzero : ∀ k, slotOf v.disk sv.svI k = 0) :
    (∀ o x, v'.Ref o x ↔ v.Ref o x ∨ o = .inode i ∧ x = i) ∧
      ∀ j, j ≠ i → v'.abs.file j = v.abs.file j := by
  have hi1 : (1 : ℕ) ≠ i := fun h1 => hdead (Or.inl h1.symm)
  have hlive : ∀ j, v'.Live j ↔ v.Live j ∨ j = i := fun j => by
    by_cases hj : j = i
    · subst hj
      exact iff_of_true (Loaded.live (h.loaded_self.mpr rfl)) (Or.inr rfl)
    · rw [or_iff_left hj]
      exact or_congr_right (or_congr (h.loaded_ne hj) (by rw [h.view_ne hi1]))
  refine ⟨fun o x => ?_, fun j hj =>
    abs_file_congr ((hlive j).trans (or_iff_left hj)) fun _ => h.view_ne hj⟩
  have hrole : ∀ j k, v'.Ref (role j k) x ↔ v.Ref (role j k) x ∨ role j k = .inode i ∧ x = i := by
    intro j k
    rw [or_iff_left fun hr => role_contents.2.2 i hr.1, ref_role, ref_role, hlive]
    by_cases hj : j = i
    · subst hj
      rw [h.slot_self, hzero]
      exact iff_of_false (fun hr => hr.2.1 hr.2.2.symm) fun hr => hdead hr.1
    · rw [or_iff_left hj, h.slot_ne hj]
  cases o with
  | super => simp [Ref]
  | freemap j => simp [Ref, hn]
  | inode j =>
    simp only [Ref, hlive, Role.inode.injEq, or_and_right]
    exact or_congr_right (and_congr_right fun hj => by rw [hj])
  | indirect j => exact hrole j none
  | data j fb => exact hrole j (some fb)

theorem Phys.of_addVnode (h : v.Phys loose) (hn : ¬v.Loaded sv.svIno) (hc : 0 < sv.vnRefcount)
    (hd : sv.svDirty = false → sv.svI = v.disk sv.svIno)
    (hheld : Held v.InUse (v.addVnode sv).Ref loose') : (v.addVnode sv).Phys loose' where
  __ := h
  nodup := by
    change ((v.sfsVnodes ++ [sv]).map SfsVnode.svIno).Nodup
    rw [List.map_append, List.map_singleton, List.nodup_append]
    refine ⟨h.nodup, List.nodup_singleton _, ?_⟩
    rintro a ha b hb rfl
    rw [List.mem_singleton] at hb
    subst hb
    exact hn (loaded_iff.mpr ha)
  counted x hx := by
    rcases List.mem_append.mp hx with hx | hx
    · exact h.counted x hx
    · rw [List.mem_singleton.mp hx]
      exact hc
  held := hheld
  clean x hx hx' := by
    rcases List.mem_append.mp hx with hx | hx
    · exact h.clean x hx hx'
    · obtain rfl := List.mem_singleton.mp hx
      exact hd hx'

/-- An inode is loaded from disk. -/
theorem Phys.load (h : v.Phys loose) (hi : v.Live i) (hn : ¬v.Loaded i) :
    (v.addVnode ⟨v.disk i, i, false, 1⟩).Phys loose ∧
      (v.addVnode ⟨v.disk i, i, false, 1⟩).abs = v.abs.setRefs i 1 ∧
      ∀ o x, (v.addVnode ⟨v.disk i, i, false, 1⟩).Ref o x ↔ v.Ref o x := by
  have hr := reload_add (show ¬v.Loaded (⟨v.disk i, i, false, 1⟩ : SfsVnode).svIno from hn)
  obtain ⟨habs, href⟩ := hr.same rfl (hr.inode_self.trans (inode_of_not_loaded hn).symm)
    (iff_of_true (Loaded.live (hr.loaded_self.mpr rfl)) hi)
  exact ⟨h.of_addVnode hn Nat.one_pos (fun _ => rfl) (h.held.congr (fun _ => Iff.rfl) href),
    habs, href⟩

/-- A new inode, which refers to nothing. -/
theorem Phys.loadNew {d : DiskBlock} (h : v.Phys loose) (hi : i ∈ loose)
    (hind : sfiIndirect d = 0) (hdir : ∀ k < 15, sfiDirect d k = 0)
    (hl : ∀ x, x ∈ loose' ↔ x ∈ loose ∧ x ≠ i) :
    (v.addVnode ⟨d, i, true, 1⟩).Phys loose' ∧
      (v.addVnode ⟨d, i, true, 1⟩).abs =
        (v.abs.setFile i ⟨sfiSize d, sfiType d, sfiLinkcount d, fun _ => 0⟩).setRefs i 1 ∧
      Grows v (v.addVnode ⟨d, i, true, 1⟩) := by
  set sv : SfsVnode := ⟨d, i, true, 1⟩ with hsv
  have hdead : ¬v.Live i := fun hli => h.held.disj (show v.Ref (.inode i) i from ⟨hli, rfl⟩) hi
  have hn : ¬v.Loaded sv.svIno := fun hld => hdead hld.live
  have hr : Reload i (some sv) v (v.addVnode sv) := reload_add hn
  have hzero : ∀ k, slotOf v.disk d k = 0 := slotOf_eq_zero hind hdir
  obtain ⟨href, hfile⟩ := hr.newFile rfl hdead hzero
  have hview : (v.addVnode sv).view i = ⟨sfiSize d, sfiType d, sfiLinkcount d, fun _ => 0⟩ := by
    rw [hr.view_self]
    exact FileView.ext rfl rfl rfl (funext fun off => if_pos (hzero (some _)))
  refine ⟨h.of_addVnode hn Nat.one_pos nofun (h.held.attach (.inode i) hi href hl), ?_,
    .of_attach href fun o ho => h.held.disj ho hi⟩
  refine Fs.ext rfl (eq_update_iff.mpr ⟨?_, hfile⟩) hr.refs_eq
  rw [abs_file (Loaded.live (hr.loaded_self.mpr rfl)), hview]

theorem Phys.of_dropVnode (h : v.Phys loose)
    (hheld : Held v.InUse (v.dropVnode i).Ref loose') : (v.dropVnode i).Phys loose' where
  __ := h
  nodup := h.nodup.sublist (List.Sublist.map _ List.eraseP_sublist)
  counted x hx := h.counted x (List.mem_of_mem_eraseP hx)
  held := hheld
  clean x hx := h.clean x (List.mem_of_mem_eraseP hx)

/-- A vnode that is on disk leaves the table, and the file has a name. -/
theorem Phys.unload (h : v.Phys loose) (hi : v.loaded i = some sv)
    (hstay : i = 1 ∨ (v.view 1).Names i) (hc : sv.svI = v.disk i) :
    (v.dropVnode i).Phys loose ∧ (v.dropVnode i).abs = v.abs.setRefs i 0 ∧
      ∀ o x, (v.dropVnode i).Ref o x ↔ v.Ref o x := by
  have hr := reload_drop h.nodup i
  have hlive : (v.dropVnode i).Live i := by
    by_cases h1 : i = 1
    · exact Or.inl h1
    · refine Or.inr (Or.inr ?_)
      rw [hr.view_ne (Ne.symm h1)]
      exact hstay.resolve_left h1
  obtain ⟨habs, href⟩ := hr.same rfl (hr.inode_self.trans ((inode_of_loaded hi).trans hc).symm)
    (iff_of_true hlive (live_of_loaded hi))
  exact ⟨h.of_dropVnode (h.held.congr (fun _ => Iff.rfl) href), habs, href⟩

/-- A vnode without a name and without blocks leaves the table. -/
theorem Phys.discard (h : v.Phys loose) (hi : v.loaded i = some sv) (hi1 : i ≠ 1)
    (hgone : ¬(v.view 1).Names i) (hind : sfiIndirect sv.svI = 0)
    (hdir : ∀ k < 15, sfiDirect sv.svI k = 0) :
    (v.dropVnode i).Phys (insert i loose) ∧
      (v.dropVnode i).abs = (v.abs.setFile i FileView.none).setRefs i 0 ∧
      Shrinks i v (v.dropVnode i) ∧ ¬(v.dropVnode i).Live i := by
  have hd := reload_drop h.nodup i
  have hr : Reload i (some sv) (v.dropVnode i) v :=
    ⟨rfl, by rw [hd.loaded, update_idem, ← hi, update_eq_self]⟩
  have hdead : ¬(v.dropVnode i).Live i := by
    rintro (h1 | hl | hnm)
    · exact hi1 h1
    · cases hd.loaded_self.mp hl
    · rw [hd.view_ne hi1.symm] at hnm
      exact hgone hnm
  obtain ⟨href, hfile⟩ := hr.newFile rfl hdead (slotOf_eq_zero hind hdir)
  have hself : v.Ref (.inode i) i := ⟨live_of_loaded hi, rfl⟩
  have hrefs : ∀ o x, (v.dropVnode i).Ref o x ↔ v.Ref o x ∧ x ∉ ({i} : Set ℕ) := by
    intro o x
    constructor
    · intro hR
      have hR' := (href o x).mpr (Or.inl hR)
      refine ⟨hR', ?_⟩
      rintro rfl
      cases h.held.inj hR' hself
      exact hdead hR.1
    · rintro ⟨hR, hx⟩
      exact ((href o x).mp hR).resolve_right fun hn => hx hn.2
  refine ⟨?_, ?_, ⟨fun hR => ((hrefs _ _).mp hR).1, fun ho hR => (hrefs _ _).mpr ⟨hR, ?_⟩⟩, hdead⟩
  · refine h.of_dropVnode (h.held.detach (fun b hb => ⟨.inode i, ?_⟩) hrefs)
    rw [Set.mem_singleton_iff.mp hb]
    exact hself
  · exact Fs.ext rfl (eq_update_iff.mpr ⟨abs_file_of_not_live hdead, fun j hj => (hfile j hj).symm⟩)
      hd.refs_eq
  · rintro rfl
    cases h.held.inj hR hself
    exact ho rfl

/-! ## Writing back -/

/-- An inode in memory is written to its block. -/
theorem Phys.writeInode (h : v.Phys loose) (hi : v.loaded i = some sv) :
    (v.setDisk i sv.svI).Phys loose ∧ (v.setDisk i sv.svI).abs = v.abs ∧
      ∀ o x, (v.setDisk i sv.svI).Ref o x ↔ v.Ref o x := by
  have hld : v.Loaded i := Option.isSome_of_eq_some hi
  have href : v.Ref (.inode i) i := ⟨hld.live, rfl⟩
  have ht : ¬Touches v.disk (v.inode i) i := by
    rintro ⟨h0, hx | ⟨fb, hx⟩⟩
    · cases h.held.inj href (show v.Ref (.indirect i) i from ⟨hld.live, h0, hx⟩)
    · cases h.held.inj href (show v.Ref (.data i fb) i from ⟨hld.live, h0, hx⟩)
  refine h.writeSame ⟨?_, fun x hx hxi _ => ?_, fun _ j hj hij => ?_⟩ fun j hj => ?_
  · rintro rfl
    cases h.held.inj href (show v.Ref .super 0 from rfl)
  · have hx' := loaded_of_mem h.nodup hx
    rw [hxi, hi] at hx'
    cases hx'
    rfl
  · cases h.held.inj href (show v.Ref (.freemap j) i from ⟨hj, hij⟩)
  · by_cases hji : j = i
    · subst hji
      exact same_setDisk (Or.inl hld) ht
    · exact h.others_setDisk href rfl hj hji

/-- A block of a dirty freemap is written. -/
theorem Phys.writeMap (h : v.Phys loose) (hd : v.sfsFreemapdirty = true)
    (hj : j < sfsFreemapblocks v.sbNblocks) :
    (v.setDisk (2 + j) w).Phys loose ∧ (v.setDisk (2 + j) w).abs = v.abs ∧
      ∀ o x, (v.setDisk (2 + j) w).Ref o x ↔ v.Ref o x := by
  have href : v.Ref (.freemap j) (2 + j) := ⟨hj, rfl⟩
  refine h.writeOther ⟨by omega, fun sv hsv hino => ?_, fun hd' => ?_⟩ fun i _ o ho hf => ?_
  · cases h.held.inj href (show v.Ref (.inode sv.svIno) (2 + j) from ⟨live_of_mem hsv, hino.symm⟩)
  · rw [hd] at hd'
    cases hd'
  · cases h.held.inj ho href
    cases hf

end Volume

end OS161
