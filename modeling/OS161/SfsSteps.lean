import OS161.SfsView

/-!
# Steps on a volume

The functions of the file system change a volume in few ways : they mark and unmark blocks,
write a block, change an inode in memory, and add or remove a vnode. For each of them there is
a lemma here that says when the invariant `Volume.Phys` survives it and what becomes of the
file system on the volume, `Volume.abs`. A block that a function has allocated and not yet
recorded, or has removed from an inode and not yet freed, is loose in between. Where the code
frees a block before it forgets its number, the order does not matter, and the lemmas take the
block from the inode first.
-/

namespace OS161

open Function

namespace Volume

variable {v v' : Volume} {loose loose' : Set ℕ} {b i j : ℕ} {w : DiskBlock} {sv : SfsVnode}
  {f : SfsVnode → SfsVnode}

/-! ## The table of vnodes -/

theorem loaded_eq_some (h : v.loaded i = some sv) : sv ∈ v.sfsVnodes ∧ sv.svIno = i :=
  ⟨List.mem_of_find?_eq_some h, by simpa using List.find?_some h⟩

theorem loaded_of_mem (hn : (v.sfsVnodes.map SfsVnode.svIno).Nodup) (h : sv ∈ v.sfsVnodes) :
    v.loaded sv.svIno = some sv := by
  have hsome : (v.loaded sv.svIno).isSome := by
    unfold loaded
    rw [List.find?_isSome]
    exact ⟨sv, h, by simp⟩
  obtain ⟨sv', h'⟩ := Option.isSome_iff_exists.mp hsome
  obtain ⟨hmem, hino⟩ := loaded_eq_some h'
  rw [h', List.inj_on_of_nodup_map hn hmem h hino]

theorem Loaded.exists (h : v.Loaded i) : ∃ sv, v.loaded i = some sv :=
  Option.isSome_iff_exists.mp h

theorem loaded_iff : v.Loaded i ↔ i ∈ v.sfsVnodes.map SfsVnode.svIno := by
  unfold Loaded loaded
  simp

theorem inode_of_loaded (h : v.loaded i = some sv) : v.inode i = sv.svI := by
  unfold inode
  rw [h]
  rfl

theorem refs_of_loaded (h : v.loaded i = some sv) : v.refs i = sv.vnRefcount := by
  unfold refs
  rw [h]
  rfl

theorem inode_of_not_loaded (h : ¬v.Loaded i) : v.inode i = v.disk i := by
  unfold inode
  rw [Option.not_isSome_iff_eq_none.mp h]
  rfl

theorem Loaded.live (h : v.Loaded i) : v.Live i :=
  Or.inr (Or.inl h)

theorem live_root : v.Live 1 :=
  Or.inl rfl

theorem live_of_mem (h : sv ∈ v.sfsVnodes) : v.Live sv.svIno :=
  (loaded_iff.mpr (List.mem_map_of_mem h)).live

theorem live_of_loaded (h : v.loaded i = some sv) : v.Live i :=
  Loaded.live (Option.isSome_of_eq_some h)

theorem view_of_loaded (h : v.loaded i = some sv) : v.view i = viewOf v.disk sv.svI :=
  congrArg (viewOf v.disk) (inode_of_loaded h)

/-- Changing a vnode. -/
theorem loaded_updateVnode (hf : ∀ sv, (f sv).svIno = sv.svIno) (i j : ℕ) :
    (v.updateVnode i f).loaded j = if j = i then (v.loaded j).map f else v.loaded j := by
  unfold loaded updateVnode
  simp only [List.find?_map, Function.comp_def]
  have hp : (fun sv : SfsVnode => decide ((if sv.svIno = i then f sv else sv).svIno = j)) =
      fun sv => decide (sv.svIno = j) := by
    funext sv
    split_ifs
    · rw [hf]
    · rfl
  rw [hp]
  cases hl : v.sfsVnodes.find? fun sv => decide (sv.svIno = j) with
  | none => simp
  | some sv =>
    have hj : sv.svIno = j := by simpa using List.find?_some hl
    simp only [Option.map_some, hj]
    split_ifs <;> rfl

theorem loaded_updateVnode_self (hf : ∀ sv, (f sv).svIno = sv.svIno) (h : v.loaded i = some sv) :
    (v.updateVnode i f).loaded i = some (f sv) := by
  rw [loaded_updateVnode hf, if_pos rfl, h]
  rfl

theorem loaded_updateVnode_ne (hf : ∀ sv, (f sv).svIno = sv.svIno) (h : j ≠ i) :
    (v.updateVnode i f).loaded j = v.loaded j := by
  rw [loaded_updateVnode hf, if_neg h]

theorem map_svIno_updateVnode (hf : ∀ sv, (f sv).svIno = sv.svIno) :
    (v.updateVnode i f).sfsVnodes.map SfsVnode.svIno = v.sfsVnodes.map SfsVnode.svIno := by
  unfold updateVnode
  rw [List.map_map]
  refine List.map_congr_left fun sv _ => ?_
  simp only [Function.comp_apply]
  split_ifs
  · exact hf sv
  · rfl

/-- The vnodes after one was changed. -/
theorem mem_updateVnode (hn : (v.sfsVnodes.map SfsVnode.svIno).Nodup) (h : v.loaded i = some sv)
    {x : SfsVnode} (hx : x ∈ (v.updateVnode i f).sfsVnodes) :
    x ∈ v.sfsVnodes ∧ x.svIno ≠ i ∨ x = f sv := by
  obtain ⟨y, hy, rfl⟩ := List.mem_map.mp hx
  split_ifs with hi
  · obtain rfl := hi
    rw [loaded_of_mem hn hy] at h
    cases h
    exact Or.inr rfl
  · exact Or.inl ⟨hy, hi⟩

/-! ## Files that do not change -/

/-- The names matter for the files that are not in memory. -/
theorem live_congr (hl : ∀ i, v'.Loaded i ↔ v.Loaded i)
    (h1 : ∀ i, ¬v.Loaded i → ((v'.view 1).Names i ↔ (v.view 1).Names i)) :
    v'.Live i ↔ v.Live i := by
  by_cases h : v.Loaded i
  · exact iff_of_true ((hl i).mpr h).live h.live
  · exact or_congr_right (or_congr (hl i) (h1 i h))

theorem abs_file (h : v.Live i) : v.abs.file i = v.view i :=
  if_pos h

theorem abs_file_of_not_live (h : ¬v.Live i) : v.abs.file i = FileView.none :=
  if_neg h

theorem abs_file_of_loaded (h : v.loaded i = some sv) : v.abs.file i = viewOf v.disk sv.svI :=
  (abs_file (live_of_loaded h)).trans (view_of_loaded h)

theorem abs_file_congr (hl : v'.Live i ↔ v.Live i) (hv : v.Live i → v'.view i = v.view i) :
    v'.abs.file i = v.abs.file i := by
  by_cases h : v.Live i
  · rw [abs_file (hl.mpr h), abs_file h, hv h]
  · rw [abs_file_of_not_live (mt hl.mp h), abs_file_of_not_live h]

theorem abs_congr (hn : v'.sbNblocks = v.sbNblocks) (hr : v'.refs = v.refs)
    (hl : ∀ i, v'.Live i ↔ v.Live i) (hv : ∀ i, v.Live i → v'.view i = v.view i) :
    v'.abs = v.abs :=
  Fs.ext hn (funext fun i => abs_file_congr (hl i) (hv i)) hr

/-- One file changes, and the references to vnodes. -/
theorem abs_setFile (hn : v'.sbNblocks = v.sbNblocks) (hl : ∀ i, v'.Live i ↔ v.Live i)
    (hi : v.Live i) (hv : ∀ j, v.Live j → j ≠ i → v'.view j = v.view j) :
    v'.abs = { v.abs.setFile i (v'.view i) with refs := v'.refs } := by
  have hfile : v'.abs.file = update v.abs.file i (v'.view i) :=
    eq_update_iff.mpr ⟨abs_file ((hl i).mpr hi), fun j hj =>
      abs_file_congr (hl j) fun h => hv j h hj⟩
  exact Fs.ext hn hfile rfl

/-- The numbers in an inode and its indirect block : that of the indirect block, and those of
the data blocks. -/
def slotOf (disk : ℕ → DiskBlock) (d : DiskBlock) : Option ℕ → ℕ
  | none => sfiIndirect d
  | some fb => filePtr disk d fb

/-- A block number of file `i`. -/
def slot (v : Volume) (i : ℕ) : Option ℕ → ℕ :=
  slotOf v.disk (v.inode i)

/-- The role of such a number. -/
def role (i : ℕ) : Option ℕ → Role
  | none => .indirect i
  | some fb => .data i fb

variable {k k' : Option ℕ} {o : Role} {x : ℕ}

theorem ref_role : v.Ref (role i k) x ↔ v.Live i ∧ x ≠ 0 ∧ v.slot i k = x := by
  cases k <;> rfl

theorem slot_of_loaded (h : v.loaded i = some sv) : v.slot i = slotOf v.disk sv.svI :=
  congrArg (slotOf v.disk) (inode_of_loaded h)

theorem file_role : (role i k).file = some i := by
  cases k <;> rfl

theorem role_inj : role i k = role i k' ↔ k = k' := by
  cases k <;> cases k' <;> simp [role]

theorem role_contents :
    role i k ≠ .super ∧ (∀ j, role i k ≠ .freemap j) ∧ ∀ j, role i k ≠ .inode j := by
  cases k <;> exact ⟨nofun, fun _ => nofun, fun _ => nofun⟩

/-- The references are those in the inodes and indirect blocks. -/
theorem ref_congr (hn : v'.sbNblocks = v.sbNblocks) (hl : ∀ i, v'.Live i ↔ v.Live i)
    (ho : ∀ i k, o = role i k → v.Live i → v'.slot i k = v.slot i k) :
    v'.Ref o x ↔ v.Ref o x := by
  have hrole : ∀ i k, o = role i k → (v'.Ref o x ↔ v.Ref o x) := by
    rintro i k rfl
    rw [ref_role, ref_role, hl]
    exact and_congr_right fun hi => by rw [ho i k rfl hi]
  cases o with
  | super => exact Iff.rfl
  | freemap j => simp only [Ref, hn]
  | inode i => simp only [Ref, hl]
  | indirect i => exact hrole i none rfl
  | data i fb => exact hrole i (some fb) rfl

/-! ## Roles -/

/-- No role is lost, and a new one is that of a block without a role. -/
structure Grows (v v' : Volume) : Prop where
  keeps : ∀ {o b}, v.Ref o b → v'.Ref o b
  fresh : ∀ {o b}, v'.Ref o b → v.Ref o b ∨ ∀ o', ¬v.Ref o' b

/-- No role is new, and those that are lost are roles of file `i`. -/
structure Shrinks (i : ℕ) (v v' : Volume) : Prop where
  old : ∀ {o b}, v'.Ref o b → v.Ref o b
  keeps : ∀ {o b}, o.file ≠ some i → v.Ref o b → v'.Ref o b

theorem Grows.of_iff (h : ∀ o b, v'.Ref o b ↔ v.Ref o b) : Grows v v' :=
  ⟨fun hR => (h _ _).mpr hR, fun hR => Or.inl ((h _ _).mp hR)⟩

theorem Grows.refl (v : Volume) : Grows v v :=
  .of_iff fun _ _ => Iff.rfl

theorem Grows.trans {v'' : Volume} (h : Grows v v') (h' : Grows v' v'') : Grows v v'' where
  keeps hR := h'.keeps (h.keeps hR)
  fresh hR := by
    rcases h'.fresh hR with hR' | hno
    · exact h.fresh hR'
    · exact Or.inr fun o' ho => hno o' (h.keeps ho)

/-- A block without a role gets one. -/
theorem Grows.of_attach {o₀ : Role} (h : ∀ o x, v'.Ref o x ↔ v.Ref o x ∨ o = o₀ ∧ x = b)
    (hb : ∀ o, ¬v.Ref o b) : Grows v v' where
  keeps hR := (h _ _).mpr (Or.inl hR)
  fresh hR := by
    rcases (h _ _).mp hR with hR | ⟨-, rfl⟩
    · exact Or.inl hR
    · exact Or.inr hb

theorem Shrinks.of_iff (h : ∀ o b, v'.Ref o b ↔ v.Ref o b) : Shrinks i v v' :=
  ⟨fun hR => (h _ _).mp hR, fun _ hR => (h _ _).mpr hR⟩

theorem Shrinks.refl (v : Volume) : Shrinks i v v :=
  .of_iff fun _ _ => Iff.rfl

theorem Shrinks.trans {v'' : Volume} (h : Shrinks i v v') (h' : Shrinks i v' v'') :
    Shrinks i v v'' where
  old hR := h.old (h'.old hR)
  keeps ho hR := h'.keeps ho (h.keeps ho hR)

/-! ## Writing a block -/

theorem disk_setDisk_self (v : Volume) (b : ℕ) (w : DiskBlock) : (v.setDisk b w).disk b = w :=
  update_self _ _ _

theorem inode_setDisk (h : v.Loaded i ∨ b ≠ i) : (v.setDisk b w).inode i = v.inode i := by
  change (v.loaded i).elim (update v.disk b w i) SfsVnode.svI = _
  by_cases hl : v.Loaded i
  · obtain ⟨sv, hsv⟩ := hl.exists
    rw [inode_of_loaded hsv, hsv]
    rfl
  · rw [update_of_ne (h.resolve_left hl).symm]
    rfl

/-- The blocks with the contents of a live file are referred to by that file. -/
theorem ref_of_touches (hi : v.Live i) (h : Touches v.disk (v.inode i) b) :
    ∃ o, v.Ref o b ∧ o.file = some i := by
  obtain ⟨h0, h | ⟨fb, h⟩⟩ := h
  · exact ⟨.indirect i, ⟨hi, h0, h⟩, rfl⟩
  · exact ⟨.data i fb, ⟨hi, h0, h⟩, rfl⟩

/-- A file is not changed by writing a block that does not have its contents. -/
theorem same_setDisk (hi : v.Loaded i ∨ b ≠ i) (ht : ¬Touches v.disk (v.inode i) b) :
    (v.setDisk b w).slot i = v.slot i ∧ (v.setDisk b w).view i = v.view i := by
  unfold slot view
  rw [inode_setDisk hi]
  refine ⟨funext fun k => ?_, viewOf_update ht w⟩
  cases k with
  | none => rfl
  | some fb => exact congrFun (filePtr_update ht w) fb

theorem other_setDisk (hi : v.Live i) (ho : ∀ o, v.Ref o b → o.file ≠ some i) :
    (v.setDisk b w).slot i = v.slot i ∧ (v.setDisk b w).view i = v.view i := by
  refine same_setDisk (Or.inr ?_) fun ht => ?_
  · rintro rfl
    exact ho (.inode b) ⟨hi, rfl⟩ rfl
  · obtain ⟨o, hb, hf⟩ := ref_of_touches hi ht
    exact ho o hb hf

/-- A block of one file is written, and another file does not change. -/
theorem Phys.others_setDisk (h : v.Phys loose) (hb : v.Ref o b) (ho : o.file = some i)
    (hj : v.Live j) (hne : j ≠ i) :
    (v.setDisk b w).slot j = v.slot j ∧ (v.setDisk b w).view j = v.view j := by
  refine other_setDisk hj fun o' ho' hf => hne (Option.some.inj ?_)
  rw [← hf, h.held.inj ho' hb, ho]

/-- DiskBlock `b` may be written with `w` as far as the superblock, the clean inodes and a clean
freemap are concerned. -/
structure Writable (v : Volume) (b : ℕ) (w : DiskBlock) : Prop where
  super : b ≠ 0
  clean : ∀ sv ∈ v.sfsVnodes, sv.svIno = b → sv.svDirty = false → sv.svI = w
  cleanMap : v.sfsFreemapdirty = false → ∀ j < sfsFreemapblocks v.sbNblocks, b ≠ 2 + j

theorem Phys.of_setDisk (h : v.Phys loose) (hw : v.Writable b w)
    (hheld : Held v.InUse (v.setDisk b w).Ref loose') : (v.setDisk b w).Phys loose' where
  __ := h
  super := by
    change getWord (update v.disk b w 0) 0 = _ ∧
      getWord (update v.disk b w 0) 1 = _
    rw [update_of_ne hw.super.symm]
    exact h.super
  held := hheld
  clean sv hsv hd := by
    change sv.svI = update v.disk b w sv.svIno
    by_cases hb : sv.svIno = b
    · rw [hb, update_self]
      exact hw.clean sv hsv hb hd
    · rw [update_of_ne hb]
      exact h.clean sv hsv hd
  cleanMap hd ix hix := by
    change ix < sfsFreemapbits v.sbNblocks / 8 at hix
    change update v.disk b w (2 + ix / 512) (ix % 512) = _
    have hj : ix / 512 < sfsFreemapblocks v.sbNblocks := by
      rw [sfsFreemapbits_eq] at hix
      omega
    rw [update_of_ne (hw.cleanMap hd _ hj).symm]
    exact h.cleanMap hd ix hix

/-- A block with contents of a file may be written. -/
theorem Phys.writable (h : v.Phys loose) (hb : v.Ref (role i k) b) : v.Writable b w where
  super := by
    rintro rfl
    exact role_contents.1 (h.held.inj hb (show v.Ref .super 0 from rfl))
  clean sv hsv hi _ := absurd
    (h.held.inj hb (show v.Ref (.inode sv.svIno) b from ⟨live_of_mem hsv, hi.symm⟩))
    (role_contents.2.2 _)
  cleanMap _ j hj hb' :=
    role_contents.2.1 j (h.held.inj hb (show v.Ref (.freemap j) b from ⟨hj, hb'⟩))

/-- A block to which nothing refers may be written. -/
theorem writable_of_unref (hb : ∀ o, ¬v.Ref o b) : v.Writable b w where
  super := by
    rintro rfl
    exact hb .super rfl
  clean sv hsv hi _ := absurd ⟨live_of_mem hsv, hi.symm⟩ (hb (.inode sv.svIno))
  cleanMap _ j hj hb' := hb (.freemap j) ⟨hj, hb'⟩

/-- Live files when a block is written. -/
theorem live_setDisk
    (h1 : ∀ k, ¬v.Loaded k → (((v.setDisk b w).view 1).Names k ↔ (v.view 1).Names k)) :
    ∀ i, (v.setDisk b w).Live i ↔ v.Live i :=
  fun _ => live_congr (fun _ => Iff.rfl) h1

/-- Writing a block without effect on the files. -/
theorem Phys.writeSame (h : v.Phys loose) (hw : v.Writable b w) (hsame : ∀ i, v.Live i →
      (v.setDisk b w).slot i = v.slot i ∧ (v.setDisk b w).view i = v.view i) :
    (v.setDisk b w).Phys loose ∧ (v.setDisk b w).abs = v.abs ∧
      ∀ o x, (v.setDisk b w).Ref o x ↔ v.Ref o x := by
  have hl : ∀ i, (v.setDisk b w).Live i ↔ v.Live i := by
    refine live_setDisk fun k _ => ?_
    rw [(hsame 1 live_root).2]
  have href : ∀ o x, (v.setDisk b w).Ref o x ↔ v.Ref o x := fun o x =>
    ref_congr rfl hl fun i k _ hi => congrFun (hsame i hi).1 k
  refine ⟨h.of_setDisk hw (h.held.congr (fun _ => Iff.rfl) href), ?_, href⟩
  exact abs_congr rfl rfl hl fun i hi => (hsame i hi).2

/-- Writing a block to which no file refers. -/
theorem Phys.writeOther (h : v.Phys loose) (hw : v.Writable b w)
    (hb : ∀ i, v.Live i → ∀ o, v.Ref o b → o.file ≠ some i) :
    (v.setDisk b w).Phys loose ∧ (v.setDisk b w).abs = v.abs ∧
      ∀ o x, (v.setDisk b w).Ref o x ↔ v.Ref o x :=
  h.writeSame hw fun i hi => other_setDisk hi (hb i hi)

/-- Writing a loose block. -/
theorem Phys.writeLoose (h : v.Phys loose) (hb : b ∈ loose) :
    (v.setDisk b w).Phys loose ∧ (v.setDisk b w).abs = v.abs ∧
      ∀ o x, (v.setDisk b w).Ref o x ↔ v.Ref o x :=
  h.writeOther (writable_of_unref fun _ ho => h.held.disj ho hb)
    fun _ _ _ ho => absurd hb (h.held.disj ho)

/-! ## Writing the blocks of a file -/

theorem Phys.inode_setDisk (h : v.Phys loose) (hb : v.Ref (role i k) b) :
    (v.setDisk b w).inode i = v.inode i := by
  refine Volume.inode_setDisk (Or.inr fun hbi => role_contents.2.2 i (h.held.inj hb ?_))
  exact ⟨(ref_role.mp hb).1, hbi⟩

/-- Writing a data block of a file. -/
theorem view_writeData {fb : ℕ} (h : v.Phys loose) (hb : v.Ref (.data i fb) b) :
    (v.setDisk b w).slot i = v.slot i ∧ (v.setDisk b w).view i = (v.view i).setBlock fb w := by
  have ⟨hi, h0, hp⟩ := hb
  have hd := h.inode_setDisk (w := w) (k := some fb) hb
  have hind : sfiIndirect (v.inode i) ≠ b := by
    intro hind
    cases h.held.inj hb (show v.Ref (.indirect i) b from ⟨hi, h0, hind⟩)
  have hptr : filePtr (update v.disk b w) (v.inode i) = filePtr v.disk (v.inode i) :=
    filePtr_congr (fun _ _ => rfl) rfl fun _ => update_of_ne hind _ _
  unfold slot view
  rw [hd]
  refine ⟨funext fun k => ?_, FileView.ext rfl rfl rfl (funext fun off => ?_)⟩
  · cases k with
    | none => rfl
    | some fb => exact congrFun hptr fb
  · change fileByte (update v.disk b w) (v.inode i) off =
      if off / 512 = fb then w (off % 512) else fileByte v.disk (v.inode i) off
    unfold fileByte
    rw [hptr]
    by_cases hoff : off / 512 = fb
    · have hb' : filePtr v.disk (v.inode i) (off / 512) = b := by
        rw [hoff]
        exact hp
      rw [if_pos hoff, hb', if_neg h0, update_self]
    · split_ifs with hz
      · rfl
      · rw [update_of_ne]
        intro hb'
        cases h.held.inj hb (show v.Ref (.data i (off / 512)) b from ⟨hi, h0, hb'⟩)
        exact hoff rfl

theorem Phys.writeData {fb : ℕ} (h : v.Phys loose) (hi : v.Live i) (hb : v.ptr i fb = b)
    (h0 : b ≠ 0) (hnames : i = 1 → ∀ k, ¬v.Loaded k →
      (((v.view 1).setBlock fb w).Names k ↔ (v.view 1).Names k)) :
    (v.setDisk b w).Phys loose ∧
      (v.setDisk b w).abs = v.abs.setFile i ((v.view i).setBlock fb w) ∧
      ∀ o x, (v.setDisk b w).Ref o x ↔ v.Ref o x := by
  have href : v.Ref (.data i fb) b := ⟨hi, h0, hb⟩
  obtain ⟨hslot, hv⟩ := view_writeData (w := w) h href
  have hsame : ∀ j, v.Live j → j ≠ i → _ := fun j hj hne =>
    h.others_setDisk (w := w) href rfl hj hne
  have hl : ∀ j, (v.setDisk b w).Live j ↔ v.Live j := by
    refine live_setDisk fun k hk => ?_
    by_cases hi1 : i = 1
    · subst hi1
      rw [hv]
      exact hnames rfl k hk
    · rw [(hsame 1 live_root (Ne.symm hi1)).2]
  have hrefs : ∀ o x, (v.setDisk b w).Ref o x ↔ v.Ref o x := by
    refine fun o x => ref_congr rfl hl fun j k _ hj => ?_
    by_cases hji : j = i
    · rw [hji, hslot]
    · rw [(hsame j hj hji).1]
  refine ⟨h.of_setDisk (h.writable (k := some fb) href) (h.held.congr (fun _ => Iff.rfl) hrefs),
    ?_, hrefs⟩
  rw [← hv]
  exact abs_setFile rfl hl hi fun j hj hne => (hsame j hj hne).2

/-! ## The references of one file change -/

/-- The volumes have the same live files, and the same references of files other than `i`. -/
structure SameBut (i : ℕ) (v v' : Volume) : Prop where
  nblocks : v'.sbNblocks = v.sbNblocks
  live : ∀ j, v'.Live j ↔ v.Live j
  indirect : ∀ j, v.Live j → j ≠ i → sfiIndirect (v'.inode j) = sfiIndirect (v.inode j)
  ptr : ∀ j, v.Live j → j ≠ i → v'.ptr j = v.ptr j

namespace SameBut

theorem of_slot (hn : v'.sbNblocks = v.sbNblocks) (hl : ∀ j, v'.Live j ↔ v.Live j)
    (hs : ∀ j, v.Live j → j ≠ i → v'.slot j = v.slot j) : SameBut i v v' :=
  ⟨hn, hl, fun j hj hne => congrFun (hs j hj hne) none,
    fun j hj hne => funext fun fb => congrFun (hs j hj hne) (some fb)⟩

theorem slot_eq (h : SameBut i v v') (hj : v.Live j) (hne : j ≠ i) (k : Option ℕ) :
    v'.slot j k = v.slot j k := by
  cases k with
  | none => exact h.indirect j hj hne
  | some fb => exact congrFun (h.ptr j hj hne) fb

theorem ref_other (h : SameBut i v v') (ho : ∀ k, o ≠ role i k) : v'.Ref o x ↔ v.Ref o x := by
  refine ref_congr h.nblocks h.live fun j k hk hj => h.slot_eq hj ?_ k
  rintro rfl
  exact ho k hk

/-- The file gets a block. -/
theorem attach (h : SameBut i v v') (hi : v.Live i) (hb0 : b ≠ 0) (h0 : v.slot i k = 0)
    (hslot : v'.slot i = update (v.slot i) k b) (o : Role) (x : ℕ) :
    v'.Ref o x ↔ v.Ref o x ∨ o = role i k ∧ x = b := by
  by_cases ho : ∃ k', o = role i k'
  · obtain ⟨k', rfl⟩ := ho
    rw [ref_role, ref_role, h.live, hslot, role_inj]
    by_cases hk : k' = k
    · subst hk
      rw [update_self, h0]
      constructor
      · rintro ⟨-, -, rfl⟩
        exact Or.inr ⟨rfl, rfl⟩
      · rintro (⟨-, hx, rfl⟩ | ⟨-, rfl⟩)
        · exact absurd rfl hx
        · exact ⟨hi, hb0, rfl⟩
    · simp [hk]
  · rw [h.ref_other fun k' hk' => ho ⟨k', hk'⟩, or_iff_left]
    exact fun hk => ho ⟨k, hk.1⟩

/-- The blocks that the file no longer refers to. -/
def dropped (i : ℕ) (v v' : Volume) : Set ℕ :=
  {x | v.Ref (.indirect i) x ∧ sfiIndirect (v'.inode i) = 0 ∨
    ∃ fb, v.Ref (.data i fb) x ∧ v'.ptr i fb = 0}

theorem mem_dropped : x ∈ dropped i v v' ↔ ∃ k, v.Ref (role i k) x ∧ v'.slot i k = 0 :=
  (Option.exists (p := fun k => v.Ref (role i k) x ∧ v'.slot i k = 0)).symm

theorem mem_dropped_iff (hi : v.Live i) :
    x ∈ dropped i v v' ↔ x ≠ 0 ∧ ∃ k, v.slot i k = x ∧ v'.slot i k = 0 := by
  rw [mem_dropped]
  simp only [ref_role, hi, true_and, and_assoc, exists_and_left]

/-- Some blocks are taken from the file. -/
theorem detach (h : SameBut i v v') (hheld : Held v.InUse v.Ref loose)
    (hslot : ∀ k, v'.slot i k = v.slot i k ∨ v'.slot i k = 0) :
    Held v.InUse v'.Ref (dropped i v v' ∪ loose) ∧ Shrinks i v v' := by
  suffices hR : ∀ o x, v'.Ref o x ↔ v.Ref o x ∧ x ∉ dropped i v v' by
    refine ⟨hheld.detach (fun x hx => ?_) hR, fun h' => ((hR _ _).mp h').1,
      fun ho h' => (hR _ _).mpr ⟨h', fun hx => ho ?_⟩⟩
    · obtain ⟨k, hk, -⟩ := mem_dropped.mp hx
      exact ⟨_, hk⟩
    · obtain ⟨k, hk, -⟩ := mem_dropped.mp hx
      rw [hheld.inj h' hk, file_role]
  intro o x
  by_cases ho : ∃ k, o = role i k
  · obtain ⟨k, rfl⟩ := ho
    constructor
    · intro hR
      obtain ⟨hl, hx0, hx⟩ := ref_role.mp hR
      have hk := (hslot k).resolve_right fun h0 => hx0 (hx.symm.trans h0)
      have hR' : v.Ref (role i k) x := ref_role.mpr ⟨(h.live i).mp hl, hx0, hk.symm.trans hx⟩
      refine ⟨hR', fun hd => ?_⟩
      -- A block that was dropped is not referred to in another role.
      obtain ⟨k', hk', h0⟩ := mem_dropped.mp hd
      obtain rfl := role_inj.mp (hheld.inj hR' hk')
      exact hx0 (hx.symm.trans h0)
    · rintro ⟨hR, hd⟩
      obtain ⟨hl, hx0, hx⟩ := ref_role.mp hR
      have hk := (hslot k).resolve_right fun h0 => hd (mem_dropped.mpr ⟨k, hR, h0⟩)
      exact ref_role.mpr ⟨(h.live i).mpr hl, hx0, hk.trans hx⟩
  · rw [h.ref_other fun k hk => ho ⟨k, hk⟩]
    refine (and_iff_left_of_imp fun hR hx => ?_).symm
    obtain ⟨k, hk, -⟩ := mem_dropped.mp hx
    exact ho ⟨k, hheld.inj hR hk⟩

end SameBut

end Volume

end OS161
