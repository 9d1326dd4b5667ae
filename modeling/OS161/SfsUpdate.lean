import OS161.SfsSteps

/-!
# Steps on inodes, the freemap and the table

The rest of the steps : marking and unmarking blocks, changing an inode in memory, recording a
new block in an inode or an indirect block, taking blocks away again, and loading, writing back
and removing a vnode.
-/

namespace OS161

open Function

namespace Volume

variable {v v' : Volume} {loose loose' : Set ℕ} {b i j : ℕ} {w : DiskBlock} {sv : SfsVnode}
  {f : SfsVnode → SfsVnode} {freemap : Bitmap} {g : DiskBlock → DiskBlock}

/-! ## Blocks in range -/

theorem Phys.nblocks_lt (h : v.Phys loose) : v.sbNblocks < 2 ^ 32 := by
  rw [← h.super.2]
  exact getWord_lt _ _

theorem Phys.lt_of_ref {o : Role} (h : v.Phys loose) (ho : v.Ref o b) : b < v.sbNblocks :=
  (h.held.marked_of ho).1

theorem Phys.lt_of_loose (h : v.Phys loose) (hb : b ∈ loose) : b < v.sbNblocks :=
  (h.held.marked_loose hb).1

theorem Phys.loose_ne_zero (h : v.Phys loose) (hb : b ∈ loose) : b ≠ 0 := by
  rintro rfl
  exact h.held.disj (show v.Ref .super 0 from rfl) hb

theorem Phys.refs_ne_zero_iff (h : v.Phys loose) : v.refs i ≠ 0 ↔ v.Loaded i := by
  unfold refs Loaded
  cases hl : v.loaded i with
  | none => simp
  | some sv => simpa using (h.counted sv (loaded_eq_some hl).1).ne'

theorem Phys.abs_live (h : v.Phys loose) : v.abs.Live i ↔ v.Live i := by
  have hroot : v.abs.file 1 = v.view 1 := abs_file live_root
  unfold Fs.Live Live
  rw [hroot]
  exact or_congr_right (or_congr_left h.refs_ne_zero_iff)

/-- The freemap has no padding bits. -/
theorem Phys.wf (h : v.Phys loose) : v.sfsFreemap.WF := by
  intro k hn hk
  have hmax : v.sfsFreemap.maxix * bitsPerWord = v.sfsFreemap.nbits := by
    unfold Bitmap.maxix divroundup bitsPerWord
    rw [h.nbits, sfsFreemapbits_eq]
    omega
  omega

/-! ## The freemap -/

/-- A new freemap, marked dirty. -/
def setMap (v : Volume) (freemap : Bitmap) : Volume :=
  { v with sfsFreemap := freemap, sfsFreemapdirty := true }

/-- The freemap has no part in the roles. -/
theorem Shrinks.setMap (h : Shrinks i v v') (freemap : Bitmap) :
    Shrinks i v (v'.setMap freemap) :=
  h.trans (.of_iff fun _ _ => Iff.rfl)

theorem Phys.of_setMap (h : v.Phys loose)
    (hn : freemap.nbits = v.sfsFreemap.nbits)
    (hp : ∀ k, v.sbNblocks ≤ k → v.sfsFreemap.Marked k → freemap.Marked k)
    (hheld : Held (v.setMap freemap).InUse v.Ref loose') : (v.setMap freemap).Phys loose' where
  __ := h
  nbits := hn.trans h.nbits
  padding k hk hk' := hp k hk (h.padding k hk hk')
  held := hheld
  cleanMap := nofun

/-- A free block is marked. -/
theorem Phys.mark (h : v.Phys loose) (hb : b < v.sbNblocks)
    (hfree : ¬v.sfsFreemap.Marked b) (hn : freemap.nbits = v.sfsFreemap.nbits)
    (hm : ∀ k, freemap.Marked k ↔ v.sfsFreemap.Marked k ∨ k = b) :
    (v.setMap freemap).Phys (insert b loose) := by
  refine h.of_setMap hn (fun k _ hk => (hm k).mpr (Or.inl hk)) ?_
  refine h.held.mark (fun hu => hfree hu.2) fun k => ?_
  change k < v.sbNblocks ∧ freemap.Marked k ↔ (k < v.sbNblocks ∧ _) ∨ _
  rw [hm, and_or_left]
  exact or_congr_right (and_iff_right_of_imp fun hk => hk ▸ hb)

/-- Loose blocks are unmarked. -/
theorem Phys.unmark {D : Set ℕ} (h : v.Phys loose) (hD : D ⊆ loose)
    (hn : freemap.nbits = v.sfsFreemap.nbits)
    (hm : ∀ k, freemap.Marked k ↔ v.sfsFreemap.Marked k ∧ k ∉ D)
    (hl : ∀ k, k ∈ loose' ↔ k ∈ loose ∧ k ∉ D) : (v.setMap freemap).Phys loose' := by
  refine h.of_setMap hn (fun k hk hk' => (hm k).mpr ⟨hk', fun hkD => ?_⟩) ?_
  · exact absurd (h.lt_of_loose (hD hkD)) (by omega)
  · refine h.held.unmark hD (fun k => ?_) hl
    change k < v.sbNblocks ∧ freemap.Marked k ↔ (k < v.sbNblocks ∧ _) ∧ _
    rw [hm, and_assoc]

/-- A freemap with the same marks. -/
theorem Phys.remap (h : v.Phys loose)
    (hn : freemap.nbits = v.sfsFreemap.nbits)
    (hm : ∀ k, freemap.Marked k ↔ v.sfsFreemap.Marked k) : (v.setMap freemap).Phys loose :=
  h.unmark (Set.empty_subset loose) hn (fun k => by simp [hm]) fun k => by simp

/-! ## Changing an inode in memory -/

/-- Change an inode in memory and mark it dirty. -/
def setInode (v : Volume) (i : ℕ) (g : DiskBlock → DiskBlock) : Volume :=
  v.updateVnode i fun sv => { sv with svI := g sv.svI, svDirty := true }

/-- The volumes differ in the vnode of file `i`, which is now `y`. -/
structure Reload (i : ℕ) (y : Option SfsVnode) (v v' : Volume) : Prop where
  disk : v'.disk = v.disk
  loaded : v'.loaded = update v.loaded i y

namespace Reload

variable {y : Option SfsVnode}

theorem inode_ne (h : Reload i y v v') (hj : j ≠ i) : v'.inode j = v.inode j := by
  unfold inode
  rw [h.loaded, h.disk, update_of_ne hj]

theorem inode_self (h : Reload i y v v') : v'.inode i = y.elim (v.disk i) SfsVnode.svI := by
  unfold inode
  rw [h.loaded, h.disk, update_self]

theorem slot_ne (h : Reload i y v v') (hj : j ≠ i) : v'.slot j = v.slot j := by
  unfold slot
  rw [h.inode_ne hj, h.disk]

theorem view_ne (h : Reload i y v v') (hj : j ≠ i) : v'.view j = v.view j := by
  unfold view
  rw [h.inode_ne hj, h.disk]

theorem slot_self (h : Reload i (some sv) v v') : v'.slot i = slotOf v.disk sv.svI := by
  unfold slot
  rw [h.inode_self, h.disk]
  rfl

theorem view_self (h : Reload i (some sv) v v') : v'.view i = viewOf v.disk sv.svI := by
  unfold view
  rw [h.inode_self, h.disk]
  rfl

theorem loaded_ne (h : Reload i y v v') (hj : j ≠ i) : v'.Loaded j ↔ v.Loaded j := by
  unfold Loaded
  rw [h.loaded, update_of_ne hj]

theorem loaded_self (h : Reload i y v v') : v'.Loaded i ↔ y.isSome := by
  unfold Loaded
  rw [h.loaded, update_self]

theorem refs_eq (h : Reload i y v v') :
    v'.refs = update v.refs i (y.elim 0 SfsVnode.vnRefcount) := by
  funext j
  unfold refs
  rw [h.loaded]
  exact apply_update (fun _ y => y.elim 0 SfsVnode.vnRefcount) v.loaded i y j

end Reload

theorem reload_update (hf : ∀ sv, (f sv).svIno = sv.svIno) (h : v.loaded i = some sv) :
    Reload i (some (f sv)) v (v.updateVnode i f) :=
  ⟨rfl, eq_update_iff.mpr ⟨loaded_updateVnode_self hf h, fun _ => loaded_updateVnode_ne hf⟩⟩

theorem inode_setInode (h : v.loaded i = some sv) : (v.setInode i g).inode i = g sv.svI :=
  (reload_update (f := fun sv => { sv with svI := g sv.svI, svDirty := true }) (fun _ => rfl)
    h).inode_self

/-- A directory that looks the same names the same files. -/
theorem names_same {d : DiskBlock} (h : viewOf v.disk d = v.view i) :
    i = 1 → ∀ k, ¬v.Loaded k → ((viewOf v.disk d).Names k ↔ (v.view 1).Names k) := by
  rintro rfl k _
  rw [h]

/-- The other files when an inode changes. The directory must name the same files. -/
theorem sameBut_update (hf : ∀ sv, (f sv).svIno = sv.svIno) (h : v.loaded i = some sv)
    (hnames : i = 1 → ∀ k, ¬v.Loaded k →
      ((viewOf v.disk (f sv).svI).Names k ↔ (v.view 1).Names k)) :
    SameBut i v (v.updateVnode i f) := by
  have hr := reload_update hf h
  refine .of_slot rfl (fun _ => live_congr (fun j => ?_) fun k hk => ?_) fun _ _ => hr.slot_ne
  · by_cases hj : j = i
    · subst hj
      exact iff_of_true (hr.loaded_self.mpr rfl) (Option.isSome_of_eq_some h)
    · exact hr.loaded_ne hj
  · by_cases hi : i = 1
    · subst hi
      rw [hr.view_self]
      exact hnames rfl k hk
    · rw [hr.view_ne (Ne.symm hi)]

theorem Phys.of_update (h : v.Phys loose) (hf : ∀ sv, (f sv).svIno = sv.svIno)
    (hi : v.loaded i = some sv) (hc : 0 < (f sv).vnRefcount)
    (hd : (f sv).svDirty = false → (f sv).svI = v.disk i)
    (hheld : Held v.InUse (v.updateVnode i f).Ref loose') : (v.updateVnode i f).Phys loose' where
  __ := h
  nodup := by
    rw [map_svIno_updateVnode hf]
    exact h.nodup
  counted x hx := by
    rcases mem_updateVnode h.nodup hi hx with ⟨hx, -⟩ | rfl
    · exact h.counted x hx
    · exact hc
  held := hheld
  clean x hx hx' := by
    rcases mem_updateVnode h.nodup hi hx with ⟨hx, -⟩ | rfl
    · exact h.clean x hx hx'
    · rw [hf, (loaded_eq_some hi).2]
      exact hd hx'

theorem abs_update (hf : ∀ sv, (f sv).svIno = sv.svIno) (hi : v.loaded i = some sv)
    (hnames : i = 1 → ∀ k, ¬v.Loaded k →
      ((viewOf v.disk (f sv).svI).Names k ↔ (v.view 1).Names k)) :
    (v.updateVnode i f).abs =
      (v.abs.setFile i (viewOf v.disk (f sv).svI)).setRefs i (f sv).vnRefcount := by
  have hr := reload_update hf hi
  have hsame := sameBut_update hf hi hnames
  rw [abs_setFile hsame.nblocks hsame.live (live_of_loaded hi) fun j _ => hr.view_ne,
    hr.view_self, hr.refs_eq]
  rfl

/-- A change to an inode that keeps its blocks. -/
theorem Phys.setAttrs (h : v.Phys loose) (hf : ∀ sv, (f sv).svIno = sv.svIno)
    (hi : v.loaded i = some sv) (hc : 0 < (f sv).vnRefcount)
    (hd : (f sv).svDirty = false → (f sv).svI = v.disk i)
    (hdir : ∀ k < 15, sfiDirect (f sv).svI k = sfiDirect sv.svI k)
    (hind : sfiIndirect (f sv).svI = sfiIndirect sv.svI)
    (hnames : i = 1 → ∀ k, ¬v.Loaded k →
      ((viewOf v.disk (f sv).svI).Names k ↔ (v.view 1).Names k)) :
    (v.updateVnode i f).Phys loose ∧ ∀ o x, (v.updateVnode i f).Ref o x ↔ v.Ref o x := by
  have hsame := sameBut_update hf hi hnames
  have href : ∀ o x, (v.updateVnode i f).Ref o x ↔ v.Ref o x := by
    refine fun o x => ref_congr rfl hsame.live fun j k _ hj => ?_
    by_cases hji : j = i
    · subst hji
      rw [(reload_update hf hi).slot_self, slot_of_loaded hi]
      cases k with
      | none => exact hind
      | some fb => exact congrFun (filePtr_congr hdir hind fun _ => rfl) fb
    · exact hsame.slot_eq hj hji k
  exact ⟨h.of_update hf hi hc hd (h.held.congr (fun _ => Iff.rfl) href), href⟩

/-- A change to the reference count or the dirty flag. -/
theorem Phys.setCount (h : v.Phys loose) (hf : ∀ sv, (f sv).svIno = sv.svIno)
    (hfi : ∀ sv, (f sv).svI = sv.svI) (hi : v.loaded i = some sv) (hc : 0 < (f sv).vnRefcount)
    (hd : (f sv).svDirty = false → sv.svI = v.disk i) :
    (v.updateVnode i f).Phys loose ∧
      (v.updateVnode i f).abs = v.abs.setRefs i (f sv).vnRefcount ∧
      ∀ o x, (v.updateVnode i f).Ref o x ↔ v.Ref o x := by
  have hview : viewOf v.disk (f sv).svI = v.view i := by
    rw [hfi, view_of_loaded hi]
  obtain ⟨hp, href⟩ := h.setAttrs hf hi hc (fun hd' => (hfi sv).trans (hd hd'))
    (fun k _ => by rw [hfi]) (by rw [hfi]) (names_same hview)
  refine ⟨hp, ?_, href⟩
  rw [abs_update hf hi (names_same hview), hview, ← abs_file (live_of_loaded hi), Fs.setFile_self]

theorem abs_setInode (hi : v.loaded i = some sv)
    (hnames : i = 1 → ∀ k, ¬v.Loaded k →
      ((viewOf v.disk (g sv.svI)).Names k ↔ (v.view 1).Names k)) :
    (v.setInode i g).abs = v.abs.setFile i (viewOf v.disk (g sv.svI)) := by
  have hr : v.abs.refs i = sv.vnRefcount := refs_of_loaded hi
  have habs := abs_update (f := fun sv => { sv with svI := g sv.svI, svDirty := true })
    (fun _ => rfl) hi hnames
  refine habs.trans ?_
  rw [← hr]
  exact Fs.setRefs_self _ i

/-- A change to an inode that keeps its blocks, and what becomes of the file. -/
theorem Phys.changeInode (h : v.Phys loose)
    (hi : v.loaded i = some sv) (hdir : ∀ k < 15, sfiDirect (g sv.svI) k = sfiDirect sv.svI k)
    (hind : sfiIndirect (g sv.svI) = sfiIndirect sv.svI)
    (hnames : i = 1 → ∀ k, ¬v.Loaded k →
      ((viewOf v.disk (g sv.svI)).Names k ↔ (v.view 1).Names k)) :
    (v.setInode i g).Phys loose ∧
      (v.setInode i g).abs = v.abs.setFile i (viewOf v.disk (g sv.svI)) ∧
      ∀ o x, (v.setInode i g).Ref o x ↔ v.Ref o x := by
  obtain ⟨hp, href⟩ := h.setAttrs (f := fun sv => { sv with svI := g sv.svI, svDirty := true })
    (fun _ => rfl) hi (h.counted sv (loaded_eq_some hi).1) nofun hdir hind hnames
  exact ⟨hp, abs_setInode hi hnames, href⟩

/-! ## Recording a new block -/

/-- The inode of a file gets the number of a new block, which its users do not see. -/
theorem Phys.attach {k : Option ℕ} (h : v.Phys loose) (hi : v.loaded i = some sv) (hb : b ∈ loose)
    (h0 : slotOf v.disk sv.svI k = 0)
    (hslot : slotOf v.disk (g sv.svI) = update (slotOf v.disk sv.svI) k b)
    (hview : viewOf v.disk (g sv.svI) = v.view i) (hl : ∀ x, x ∈ loose' ↔ x ∈ loose ∧ x ≠ b) :
    (v.setInode i g).Phys loose' ∧ (v.setInode i g).abs = v.abs ∧ Grows v (v.setInode i g) := by
  have hlive := live_of_loaded hi
  have hsame : SameBut i v (v.setInode i g) := sameBut_update (fun _ => rfl) hi (names_same hview)
  have hr : Reload i _ v (v.setInode i g) := reload_update (fun _ => rfl) hi
  have href := hsame.attach hlive (h.loose_ne_zero hb) (by rw [slot_of_loaded hi, h0])
    (by rw [hr.slot_self, slot_of_loaded hi, hslot])
  refine ⟨?_, ?_, .of_attach href fun o ho => h.held.disj ho hb⟩
  · exact h.of_update (fun _ => rfl) hi (h.counted sv (loaded_eq_some hi).1) nofun
      (h.held.attach _ hb href hl)
  · rw [abs_setInode hi (names_same hview), hview, ← abs_file hlive, Fs.setFile_self]

theorem slotOf_update_some {disk disk' : ℕ → DiskBlock} {d d' : DiskBlock} {fb : ℕ}
    (hind : sfiIndirect d' = sfiIndirect d)
    (hp : filePtr disk' d' = update (filePtr disk d) fb b) :
    slotOf disk' d' = update (slotOf disk d) (some fb) b := by
  funext k
  cases k <;> simp [slotOf, hind, hp, update_apply]

/-- A new direct block. -/
theorem Phys.attachDirect (h : v.Phys loose) (hi : v.loaded i = some sv) (hj : j < 15)
    (h0 : sfiDirect sv.svI j = 0) (hb : b ∈ loose) (hz : v.disk b = zeroBlock)
    (hl : ∀ x, x ∈ loose' ↔ x ∈ loose ∧ x ≠ b) :
    (v.setInode i (setSfiDirect j b)).Phys loose' ∧
      (v.setInode i (setSfiDirect j b)).abs = v.abs ∧ Grows v (v.setInode i (setSfiDirect j b)) ∧
      (v.setInode i (setSfiDirect j b)).ptr i j = b := by
  have hb32 : b < 2 ^ 32 := (h.lt_of_loose hb).trans h.nblocks_lt
  have hp : filePtr v.disk (setSfiDirect j b sv.svI) = _ := filePtr_setSfiDirect hj hb32
  have h0' : filePtr v.disk sv.svI j = 0 := (filePtr_direct hj).trans h0
  have hview : viewOf v.disk (setSfiDirect j b sv.svI) = v.view i := by
    rw [view_of_loaded hi]
    refine FileView.ext (by simp [viewOf]) (by simp [viewOf]) (by simp [viewOf]) ?_
    exact fileByte_attach hp h0' hz fun _ _ => rfl
  obtain ⟨hphys, habs, hg⟩ := h.attach (k := some j) hi hb h0'
    (slotOf_update_some (sfiIndirect_setSfiDirect _ _ _ hj) hp) hview hl
  refine ⟨hphys, habs, hg, ?_⟩
  rw [ptr, inode_setInode hi]
  exact (congrFun hp j).trans (update_self ..)

/-- A new indirect block. -/
theorem Phys.attachIndirect (h : v.Phys loose) (hi : v.loaded i = some sv)
    (h0 : sfiIndirect sv.svI = 0) (hb : b ∈ loose) (hz : v.disk b = zeroBlock)
    (hl : ∀ x, x ∈ loose' ↔ x ∈ loose ∧ x ≠ b) :
    (v.setInode i (setSfiIndirect b)).Phys loose' ∧
      (v.setInode i (setSfiIndirect b)).abs = v.abs ∧
      Grows v (v.setInode i (setSfiIndirect b)) := by
  have hb32 : b < 2 ^ 32 := (h.lt_of_loose hb).trans h.nblocks_lt
  have hp := filePtr_setSfiIndirect h0 hb32 hz
  refine h.attach (k := none) hi hb h0 (eq_update_iff.mpr ⟨?_, fun k hk => ?_⟩) ?_ hl
  · exact (sfiIndirect_setSfiIndirect ..).trans (Nat.mod_eq_of_lt hb32)
  · cases k with
    | none => exact absurd rfl hk
    | some fb => exact congrFun hp fb
  · rw [view_of_loaded hi]
    refine FileView.ext (by simp [viewOf]) (by simp [viewOf]) (by simp [viewOf]) ?_
    exact fileByte_congr hp fun _ _ => rfl

/-- The other files when an indirect block is written. -/
theorem sameBut_writeIndirect (h : v.Phys loose) (hi : v.Live i)
    (hid : sfiIndirect (v.inode i) = b) (h0 : b ≠ 0)
    (hnames : i = 1 → ∀ k, (viewOf (v.setDisk b w).disk (v.inode 1)).Names k ↔
      (v.view 1).Names k) :
    SameBut i v (v.setDisk b w) ∧ (v.setDisk b w).inode i = v.inode i ∧
      ∀ k, v.Live k → k ≠ i → (v.setDisk b w).view k = v.view k := by
  have href : v.Ref (.indirect i) b := ⟨hi, h0, hid⟩
  have hd := h.inode_setDisk (w := w) (k := none) href
  have hsame : ∀ k, v.Live k → k ≠ i → _ := fun k hk hne =>
    h.others_setDisk (w := w) href rfl hk hne
  refine ⟨.of_slot rfl (live_setDisk fun k _ => ?_) fun k hk hne => (hsame k hk hne).1, hd,
    fun k hk hne => (hsame k hk hne).2⟩
  by_cases hi1 : i = 1
  · subst hi1
    rw [view, hd]
    exact hnames rfl k
  · rw [(hsame 1 live_root (Ne.symm hi1)).2]

/-- A new entry of an indirect block. -/
theorem Phys.enter (h : v.Phys loose) (hi : v.Live i) (hid : sfiIndirect (v.inode i) ≠ 0)
    (hj : j < 128) (h0 : getWord (v.disk (sfiIndirect (v.inode i))) j = 0) (hb : b ∈ loose)
    (hz : v.disk b = zeroBlock) (hl : ∀ x, x ∈ loose' ↔ x ∈ loose ∧ x ≠ b)
    (hdata : w = setWord (v.disk (sfiIndirect (v.inode i))) j b) :
    (v.setDisk (sfiIndirect (v.inode i)) w).Phys loose' ∧
      (v.setDisk (sfiIndirect (v.inode i)) w).abs = v.abs ∧
      Grows v (v.setDisk (sfiIndirect (v.inode i)) w) ∧
      (v.setDisk (sfiIndirect (v.inode i)) w).ptr i (15 + j) = b := by
  have hb32 : b < 2 ^ 32 := (h.lt_of_loose hb).trans h.nblocks_lt
  have href : v.Ref (.indirect i) (sfiIndirect (v.inode i)) := ⟨hi, hid, rfl⟩
  have hp : filePtr (update v.disk (sfiIndirect (v.inode i)) w) (v.inode i) =
      update (filePtr v.disk (v.inode i)) (15 + j) b := by
    rw [hdata]
    exact filePtr_enter hj hid hb32
  have hz' : update v.disk (sfiIndirect (v.inode i)) w b = zeroBlock := by
    rw [update_of_ne, hz]
    rintro rfl
    exact h.held.disj href hb
  have h0' : filePtr v.disk (v.inode i) (15 + j) = 0 := by
    rw [filePtr_entry hj hid, h0]
  have hview : viewOf (update v.disk (sfiIndirect (v.inode i)) w) (v.inode i) =
      v.view i := by
    refine FileView.ext rfl rfl rfl (fileByte_attach hp h0' hz' fun fb hfb => ?_)
    rw [update_of_ne]
    intro hfb'
    cases h.held.inj href (show v.Ref (.data i fb) _ from ⟨hi, hid, hfb'⟩)
  have hnames : i = 1 → ∀ k, (viewOf (v.setDisk (sfiIndirect (v.inode i)) w).disk
      (v.inode 1)).Names k ↔ (v.view 1).Names k := by
    rintro rfl k
    rw [← hview]
    exact Iff.rfl
  obtain ⟨hsame, hinode, hothers⟩ := sameBut_writeIndirect h hi rfl hid hnames
  have hslot : (v.setDisk (sfiIndirect (v.inode i)) w).slot i =
      update (v.slot i) (some (15 + j)) b := by
    unfold slot
    rw [hinode]
    exact slotOf_update_some rfl hp
  have hrefs := hsame.attach (k := some (15 + j)) hi (h.loose_ne_zero hb) h0' hslot
  refine ⟨h.of_setDisk (h.writable (k := none) href) (h.held.attach _ hb hrefs hl), ?_,
    .of_attach hrefs fun o ho => h.held.disj ho hb, ?_⟩
  · refine abs_congr rfl rfl hsame.live fun k hk => ?_
    by_cases hki : k = i
    · subst hki
      rw [view, hinode]
      exact hview
    · exact hothers k hk hki
  · exact (congrFun hslot (some (15 + j))).trans (update_self ..)

end Volume

end OS161
