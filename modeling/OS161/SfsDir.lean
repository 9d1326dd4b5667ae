import OS161.SfsNodes
import Mathlib.Data.Finset.Card
import Mathlib.Data.List.GetD
import Mathlib.Data.Set.Card

/-!
# The directory as a finite map

The root directory is a file of slots. `FileView.dirMap` is the map from names to inodes that
it denotes, and `FileView.linkSlots` are the slots with the names of an inode. `Fs.WF` says when
the files fit together : no name is in two slots, everything but the root is a file, and the
link count of a file is the number of its names. Binding a name and counting the link keeps
`Fs.WF` (`Fs.WF.bindName`), and so do taking a name away (`Fs.WF.unbindSlot`) and dropping a
reference (`Fs.WF.decref`).
-/

namespace OS161

open Function

/-! ## Entries -/

theorem sfdIno_congr {d d' : DiskBlock} (h : ∀ x < 64, d x = d' x) : sfdIno d = sfdIno d' :=
  getWord_congr fun k hk => h k (by omega)

theorem sfdName_congr {d d' : DiskBlock} (h : ∀ x < 64, d x = d' x) : sfdName d = sfdName d' := by
  unfold sfdName
  congr 1
  refine List.map_congr_left fun k hk => h _ ?_
  have := List.mem_range.mp hk
  omega

theorem sfdIno_direntry {i : ℕ} (hi : i < 2 ^ 32) (name : List UInt8) :
    sfdIno (direntry i name) = i := by
  unfold sfdIno direntry
  rw [getWord_setWord_self, Nat.mod_eq_of_lt hi]

/-- A name that fits into the field is read back. -/
theorem sfdName_direntry (i : ℕ) {name : CString} (hlen : name.bytes.length ≤ 59) :
    sfdName (direntry i name.bytes) = name.bytes := by
  have hmap : ((List.range 59).map fun k => direntry i name.bytes (4 + k)) =
      name.bytes ++ List.replicate (59 - name.bytes.length) 0 := by
    refine List.ext_getElem (by simp; omega) fun k h1 _ => ?_
    have hk : (4 + k) / 4 ≠ 0 := by omega
    have hk' : ¬4 + k < 4 := by omega
    simp only [List.getElem_map, List.getElem_range, direntry, setWord, if_neg hk, if_neg hk',
      Nat.add_sub_cancel_left, List.getElem_append, List.getElem_replicate]
    split_ifs with hlt
    · rw [List.getD_eq_getElem _ _ hlt]
    · exact List.getD_eq_default _ _ (not_lt.mp hlt)
  have hne : ∀ b ∈ name.bytes, decide (b ≠ 0) = true := fun b hb =>
    decide_eq_true fun h0 => name.ne_zero (h0 ▸ hb)
  unfold sfdName
  rw [hmap, List.takeWhile_append_of_pos hne, List.takeWhile_replicate]
  simp

namespace FileView

variable {f : FileView} {d : DiskBlock} {i j k : ℕ} {name : List UInt8}

/-- The inode in a slot. -/
def slotIno (f : FileView) (k : ℕ) : ℕ :=
  sfdIno (f.entry k)

/-- The name in a slot. -/
def slotName (f : FileView) (k : ℕ) : List UInt8 :=
  sfdName (f.entry k)

/-- The directory with slot `k` replaced. -/
def setEntry (f : FileView) (k : ℕ) (d : DiskBlock) : FileView :=
  { f with
    size := max f.size (k * 64 + 64)
    byte := fun off => if off / 64 = k then d (off % 64) else f.byte off }

theorem entry_setEntry_self {x : ℕ} (hx : x < 64) : (f.setEntry k d).entry k x = d x := by
  have h1 : (k * 64 + x) / 64 = k := by omega
  have h2 : (k * 64 + x) % 64 = x := by omega
  unfold entry setEntry
  dsimp only
  rw [if_pos h1, h2]

theorem entry_setEntry_ne {x : ℕ} (hx : x < 64) (h : j ≠ k) :
    (f.setEntry k d).entry j x = f.entry j x := by
  have h1 : (j * 64 + x) / 64 = j := by omega
  unfold entry setEntry
  dsimp only
  rw [if_neg (h1.trans_ne h)]

theorem slotIno_setEntry (f : FileView) (k : ℕ) (d : DiskBlock) (j : ℕ) :
    (f.setEntry k d).slotIno j = if j = k then sfdIno d else f.slotIno j := by
  split_ifs with h
  · subst h
    exact sfdIno_congr fun x hx => entry_setEntry_self hx
  · exact sfdIno_congr fun x hx => entry_setEntry_ne hx h

theorem slotName_setEntry (f : FileView) (k : ℕ) (d : DiskBlock) (j : ℕ) :
    (f.setEntry k d).slotName j = if j = k then sfdName d else f.slotName j := by
  split_ifs with h
  · subst h
    exact sfdName_congr fun x hx => entry_setEntry_self hx
  · exact sfdName_congr fun x hx => entry_setEntry_ne hx h

/-- Slot `k` is there, or is the next one. -/
theorem lt_nslots_setEntry (hk : k ≤ f.nslots) :
    j < (f.setEntry k d).nslots ↔ j < f.nslots ∨ j = k := by
  unfold nslots setEntry at *
  dsimp only
  omega

/-! ## The map -/

/-- Slot `k` has the name. -/
def Binds (f : FileView) (name : List UInt8) (k : ℕ) : Prop :=
  k < f.nslots ∧ f.slotIno k ≠ 0 ∧ f.slotName k = name

/-- The map from names to inodes. -/
def dirMap (f : FileView) (name : List UInt8) : Option ℕ :=
  ((List.range f.nslots).find? fun k => f.slotIno k ≠ 0 ∧ f.slotName k = name).map f.slotIno

/-- The slots with the names of an inode. -/
def linkSlots (f : FileView) (i : ℕ) : Finset ℕ :=
  (Finset.range f.nslots).filter fun k => i ≠ 0 ∧ f.slotIno k = i

theorem mem_linkSlots : k ∈ f.linkSlots i ↔ f.NamedAt k i := by
  unfold linkSlots NamedAt
  rw [Finset.mem_filter, Finset.mem_range]
  exact Iff.rfl

theorem card_linkSlots_le (f : FileView) (i : ℕ) : (f.linkSlots i).card ≤ f.nslots := by
  have := Finset.card_filter_le (Finset.range f.nslots) fun k => i ≠ 0 ∧ f.slotIno k = i
  rwa [Finset.card_range] at this

theorem card_linkSlots_eq_zero : (f.linkSlots i).card = 0 ↔ ¬f.Names i := by
  rw [Finset.card_eq_zero, Finset.eq_empty_iff_forall_notMem]
  simp only [mem_linkSlots]
  exact not_exists.symm

/-- The directory is well formed : it has whole slots, and no name is in two of them. -/
structure IsDir (f : FileView) : Prop where
  type : f.type = sfsTypeDir
  links : f.links ≠ 0
  size_mod : f.size % 64 = 0
  size_le : f.size ≤ 143 * 512
  unique : ∀ {name k k'}, f.Binds name k → f.Binds name k' → k = k'

theorem IsDir.nslots_le (h : f.IsDir) : f.nslots ≤ 1144 := by
  have := h.size_le
  unfold nslots
  omega

theorem dirMap_eq_none : f.dirMap name = Option.none ↔ ∀ k, ¬f.Binds name k := by
  unfold dirMap
  rw [Option.map_eq_none_iff, List.find?_eq_none]
  simp only [List.mem_range, decide_eq_true_eq]
  exact forall_congr' fun k => ⟨fun h hb => h hb.1 hb.2, fun h hk hb => h ⟨hk, hb⟩⟩

theorem IsDir.dirMap_eq_some (h : f.IsDir) :
    f.dirMap name = some i ↔ ∃ k, f.Binds name k ∧ f.slotIno k = i := by
  unfold dirMap
  rw [Option.map_eq_some_iff]
  constructor
  · rintro ⟨k, hk, rfl⟩
    have hp := List.find?_some hk
    have hmem := List.mem_of_find?_eq_some hk
    rw [decide_eq_true_eq] at hp
    exact ⟨k, ⟨List.mem_range.mp hmem, hp⟩, rfl⟩
  · rintro ⟨k, hb, rfl⟩
    have hsome : ((List.range f.nslots).find?
        fun k => decide (f.slotIno k ≠ 0 ∧ f.slotName k = name)).isSome := by
      rw [List.find?_isSome]
      exact ⟨k, List.mem_range.mpr hb.1, decide_eq_true hb.2⟩
    obtain ⟨k', hk'⟩ := Option.isSome_iff_exists.mp hsome
    have hp := List.find?_some hk'
    rw [decide_eq_true_eq] at hp
    have hb' : f.Binds name k' := ⟨List.mem_range.mp (List.mem_of_find?_eq_some hk'), hp⟩
    exact ⟨k', hk', congrArg f.slotIno (h.unique hb' hb)⟩

/-- Two directories with the same bindings denote the same map. -/
theorem IsDir.dirMap_congr {f' : FileView} (h : f.IsDir) (h' : f'.IsDir)
    (hb : (∃ k, f'.Binds name k ∧ f'.slotIno k = i) ↔ ∃ k, f.Binds name k ∧ f.slotIno k = i) :
    f'.dirMap name = some i ↔ f.dirMap name = some i := by
  rw [h.dirMap_eq_some, h'.dirMap_eq_some, hb]

/-- As many names as slots. -/
theorem IsDir.ncard_names (h : f.IsDir) (i : ℕ) :
    {name | f.dirMap name = some i}.ncard = (f.linkSlots i).card := by
  have hset : {name | f.dirMap name = some i} = (f.linkSlots i).image f.slotName := by
    ext name
    rw [Set.mem_ofPred_eq, h.dirMap_eq_some, Finset.coe_image, Set.mem_image]
    refine exists_congr fun k => ?_
    rw [Finset.mem_coe, mem_linkSlots]
    constructor
    · rintro ⟨⟨hk, h0, hn⟩, rfl⟩
      exact ⟨⟨hk, h0, rfl⟩, hn⟩
    · rintro ⟨⟨hk, h0, rfl⟩, hn⟩
      exact ⟨⟨hk, h0, hn⟩, rfl⟩
  rw [hset, Set.ncard_coe_finset, Finset.card_image_of_injOn]
  intro k hk k' hk' he
  obtain ⟨h1, h2, h3⟩ := mem_linkSlots.mp hk
  obtain ⟨h1', h2', h3'⟩ := mem_linkSlots.mp hk'
  exact h.unique ⟨h1, h3.trans_ne h2, rfl⟩ ⟨h1', h3'.trans_ne h2', he.symm⟩

/-! ## Writing a slot -/

theorem binds_setEntry (hk : k ≤ f.nslots) : (f.setEntry k d).Binds name j ↔
    j = k ∧ sfdIno d ≠ 0 ∧ sfdName d = name ∨ j ≠ k ∧ f.Binds name j := by
  unfold Binds
  rw [lt_nslots_setEntry hk, slotIno_setEntry, slotName_setEntry]
  by_cases hj : j = k
  · simp [hj]
  · simp [hj]

theorem namedAt_setEntry (hk : k ≤ f.nslots) : (f.setEntry k d).NamedAt j i ↔
    j = k ∧ i ≠ 0 ∧ sfdIno d = i ∨ j ≠ k ∧ f.NamedAt j i := by
  have hs := slotIno_setEntry f k d j
  unfold slotIno at hs
  unfold NamedAt
  rw [lt_nslots_setEntry hk, hs]
  by_cases hj : j = k
  · simp [hj]
  · simp [hj]

/-- The bytes of a slot are written before the size changes. -/
theorem names_writeEntry (hk : k ≤ f.nslots)
    (h : (f.setEntry k d).Names j ↔ f.Names j) :
    { f with byte := (f.setEntry k d).byte }.Names j ↔ f.Names j := by
  rcases hk.lt_or_eq with hlt | heq
  · have hsize : (f.setEntry k d).size = f.size := by
      unfold nslots at hlt
      unfold setEntry
      dsimp only
      omega
    rw [← h, ← hsize]
    rfl
  · refine exists_congr fun k' => and_congr_right fun hk' => and_congr_right fun _ => ?_
    have hne : k' ≠ k := by
      rintro rfl
      exact absurd hk' (heq ▸ lt_irrefl _)
    have hino : sfdIno (entry { f with byte := (f.setEntry k d).byte } k') = sfdIno (f.entry k') :=
      sfdIno_congr fun x hx => entry_setEntry_ne hx hne
    rw [hino]

theorem IsDir.setEntry (h : f.IsDir) (hk : k ≤ f.nslots) (hlt : k < 1144)
    (hfree : ∀ k', sfdIno d ≠ 0 → f.Binds (sfdName d) k' → k' = k) : (f.setEntry k d).IsDir where
  type := h.type
  links := h.links
  size_mod := by
    have := h.size_mod
    unfold FileView.setEntry
    dsimp only
    omega
  size_le := by
    have := h.size_le
    unfold FileView.setEntry
    dsimp only
    omega
  unique {name k₁ k₂} h1 h2 := by
    rw [binds_setEntry hk] at h1 h2
    rcases h1 with ⟨rfl, h0, rfl⟩ | ⟨hne, hb⟩
    · rcases h2 with ⟨rfl, -⟩ | ⟨hne', hb'⟩
      · rfl
      · exact (hfree _ h0 hb').symm
    · rcases h2 with ⟨rfl, h0, rfl⟩ | ⟨-, hb'⟩
      · exact hfree _ h0 hb
      · exact h.unique hb hb'

/-- A slot for a new entry. -/
structure FreeSlot (f : FileView) (k : ℕ) : Prop where
  le : k ≤ f.nslots
  lt : k < 1144
  empty : k < f.nslots → f.slotIno k = 0

theorem FreeSlot.not_namedAt (h : f.FreeSlot k) : ¬f.NamedAt k i :=
  fun hn => hn.2.1 (hn.2.2.symm.trans (h.empty hn.1))

theorem FreeSlot.names_iff (h : f.FreeSlot k) (hi : sfdIno d = i) (h0 : i ≠ 0) :
    (f.setEntry k d).Names j ↔ f.Names j ∨ j = i := by
  constructor
  · rintro ⟨k', hk'⟩
    rcases (namedAt_setEntry h.le).mp hk' with ⟨rfl, -, hj⟩ | ⟨-, hk'⟩
    · exact Or.inr (hj.symm.trans hi)
    · exact Or.inl ⟨k', hk'⟩
  · rintro (⟨k', hk'⟩ | rfl)
    · refine ⟨k', (namedAt_setEntry h.le).mpr (Or.inr ⟨?_, hk'⟩)⟩
      rintro rfl
      exact h.not_namedAt hk'
    · exact ⟨k, (namedAt_setEntry h.le).mpr (Or.inl ⟨rfl, h0, hi⟩)⟩

theorem FreeSlot.linkSlots_eq (h : f.FreeSlot k) (hi : sfdIno d = i) (h0 : i ≠ 0) :
    (f.setEntry k d).linkSlots j =
      if j = i then insert k (f.linkSlots j) else f.linkSlots j := by
  ext k'
  rw [mem_linkSlots, namedAt_setEntry h.le]
  split_ifs with hj
  · subst hj
    rw [Finset.mem_insert, mem_linkSlots]
    constructor
    · rintro (⟨rfl, -⟩ | ⟨-, hk'⟩)
      · exact Or.inl rfl
      · exact Or.inr hk'
    · rintro (rfl | hk')
      · exact Or.inl ⟨rfl, h0, hi⟩
      · refine Or.inr ⟨?_, hk'⟩
        rintro rfl
        exact h.not_namedAt hk'
  · rw [mem_linkSlots]
    constructor
    · rintro (⟨-, -, hj'⟩ | ⟨-, hk'⟩)
      · exact absurd (hj'.symm.trans hi) hj
      · exact hk'
    · intro hk'
      refine Or.inr ⟨?_, hk'⟩
      rintro rfl
      exact h.not_namedAt hk'

/-- A new binding. -/
theorem IsDir.dirMap_link (h : f.IsDir) (hk : f.FreeSlot k) (hi : sfdIno d ≠ 0)
    (hname : ∀ k', ¬f.Binds (sfdName d) k') :
    (f.setEntry k d).dirMap = update f.dirMap (sfdName d) (some (sfdIno d)) := by
  have h' : (f.setEntry k d).IsDir := h.setEntry hk.le hk.lt fun k' _ hb => absurd hb (hname k')
  funext name
  by_cases hn : name = sfdName d
  · subst hn
    rw [update_self, h'.dirMap_eq_some]
    refine ⟨k, (binds_setEntry hk.le).mpr (Or.inl ⟨rfl, hi, rfl⟩), ?_⟩
    rw [slotIno_setEntry, if_pos rfl]
  · rw [update_of_ne hn]
    refine Option.ext fun i => h.dirMap_congr h' ?_
    refine exists_congr fun k' => ?_
    rw [binds_setEntry hk.le, slotIno_setEntry]
    by_cases hk' : k' = k
    · subst hk'
      have hno : ¬f.Binds name k' := fun hb => hb.2.1 (hk.empty hb.1)
      simp [hno, Ne.symm hn]
    · simp [hk']

/-- A binding is taken away. -/
theorem IsDir.dirMap_unlink (h : f.IsDir) (hk : k < f.nslots) (hi : f.slotIno k ≠ 0)
    (hd : sfdIno d = 0) :
    (f.setEntry k d).dirMap = update f.dirMap (f.slotName k) Option.none := by
  have hb : f.Binds (f.slotName k) k := ⟨hk, hi, rfl⟩
  have h' : (f.setEntry k d).IsDir :=
    h.setEntry hk.le (hk.trans_le h.nslots_le) fun k' h0 => absurd hd h0
  funext name
  by_cases hn : name = f.slotName k
  · subst hn
    rw [update_self, dirMap_eq_none]
    intro k' hk'
    rcases (binds_setEntry hk.le).mp hk' with ⟨-, h0, -⟩ | ⟨hne, hb'⟩
    · exact h0 hd
    · exact hne (h.unique hb' hb)
  · rw [update_of_ne hn]
    refine Option.ext fun i => h.dirMap_congr h' ?_
    refine exists_congr fun k' => ?_
    rw [binds_setEntry hk.le, slotIno_setEntry]
    by_cases hk' : k' = k
    · subst hk'
      have hno : ¬f.Binds name k' := fun hb' => hn hb'.2.2.symm
      simp [hno, hd]
    · simp [hk']

theorem names_unlink (hk : k < f.nslots) (hd : sfdIno d = 0) (hj : j ≠ f.slotIno k) :
    (f.setEntry k d).Names j ↔ f.Names j := by
  refine exists_congr fun k' => ?_
  rw [namedAt_setEntry hk.le]
  constructor
  · rintro (⟨-, h0, hj'⟩ | ⟨-, hk'⟩)
    · exact absurd (hj'.symm.trans hd) h0
    · exact hk'
  · intro hk'
    refine Or.inr ⟨?_, hk'⟩
    rintro rfl
    exact hj hk'.2.2.symm

theorem linkSlots_unlink (hk : k < f.nslots) (hd : sfdIno d = 0) (hi : f.slotIno k = i) :
    (f.setEntry k d).linkSlots j =
      if j = i then (f.linkSlots j).erase k else f.linkSlots j := by
  ext k'
  rw [mem_linkSlots, namedAt_setEntry hk.le]
  split_ifs with hj
  · rw [Finset.mem_erase, mem_linkSlots]
    constructor
    · rintro (⟨-, h0, hj'⟩ | hk')
      · exact absurd (hj'.symm.trans hd) h0
      · exact hk'
    · exact Or.inr
  · rw [mem_linkSlots]
    constructor
    · rintro (⟨-, h0, hj'⟩ | ⟨-, hk'⟩)
      · exact absurd (hj'.symm.trans hd) h0
      · exact hk'
    · intro hk'
      refine Or.inr ⟨?_, hk'⟩
      rintro rfl
      exact hj (hk'.2.2.symm.trans hi)

end FileView

/-! ## The files and their names -/

namespace Fs

variable {a : Fs} {i j k : ℕ} {name : CString} {f : FileView}

/-- The files fit together. -/
structure WF (a : Fs) : Prop where
  root : (a.file 1).IsDir
  named : ∀ {i}, (a.file 1).Names i → i ≠ 1
  file : ∀ {i}, a.Live i → i ≠ 1 → (a.file i).type = sfsTypeFile
  links : ∀ {i}, a.Live i → i ≠ 1 → (a.file i).links = ((a.file 1).linkSlots i).card

theorem WF.type_of_live (h : a.WF) (hl : a.Live i) :
    (a.file i).type = sfsTypeFile ∨ (a.file i).type = sfsTypeDir := by
  by_cases hi : i = 1
  · subst hi
    exact Or.inr h.root.type
  · exact Or.inl (h.file hl hi)

theorem WF.links_eq_zero (h : a.WF) (hl : a.Live i) (hi : i ≠ 1) :
    (a.file i).links = 0 ↔ ¬(a.file 1).Names i := by
  rw [h.links hl hi, FileView.card_linkSlots_eq_zero]

theorem WF.links_le (h : a.WF) (hl : a.Live i) (hi : i ≠ 1) : (a.file i).links ≤ 1144 := by
  rw [h.links hl hi]
  exact (FileView.card_linkSlots_le _ _).trans h.root.nslots_le

/-- Only the root is a directory. -/
theorem WF.eq_one (h : a.WF) (hl : a.Live i) (hd : (a.file i).type = sfsTypeDir) : i = 1 := by
  by_contra hi
  rw [h.file hl hi] at hd
  exact absurd hd (by decide)

theorem Live.of_setRefs {n : ℕ} (hi : a.Live i) (h : (a.setRefs i n).Live j) : a.Live j := by
  by_cases hj : j = i
  · exact hj ▸ hi
  · rcases h with h1 | hr | hn
    · exact Or.inl h1
    · refine Or.inr (Or.inl ?_)
      change update a.refs i n j ≠ 0 at hr
      rwa [update_of_ne hj] at hr
    · exact Or.inr (Or.inr hn)

theorem WF.setRefs (h : a.WF) (hi : a.Live i) (n : ℕ) : (a.setRefs i n).WF where
  root := h.root
  named := h.named
  file hl := h.file (hi.of_setRefs hl)
  links hl := h.links (hi.of_setRefs hl)

theorem WF.addRef (h : a.WF) (hi : a.Live i) : (a.addRef i).WF :=
  h.setRefs hi _

/-- The contents of a file change. -/
theorem WF.setFile (h : a.WF) (hi : i ≠ 1) (ht : f.type = (a.file i).type)
    (hl : f.links = (a.file i).links) : (a.setFile i f).WF := by
  have hroot : (a.setFile i f).file 1 = a.file 1 := a.setFile_file_ne hi.symm f
  have hlive : ∀ j, (a.setFile i f).Live j ↔ a.Live j := fun j => by
    unfold Live
    rw [hroot]
    exact Iff.rfl
  refine ⟨hroot ▸ h.root, ?_, ?_, ?_⟩
  · rw [hroot]
    exact h.named
  · intro j hj hj1
    rw [hlive] at hj
    by_cases hji : j = i
    · subst hji
      rw [setFile_file, ht, h.file hj hj1]
    · rw [a.setFile_file_ne hji, h.file hj hj1]
  · intro j hj hj1
    rw [hlive] at hj
    rw [hroot]
    by_cases hji : j = i
    · subst hji
      rw [setFile_file, hl, h.links hj hj1]
    · rw [a.setFile_file_ne hji, h.links hj hj1]

theorem addFile_file (a : Fs) (i : ℕ) :
    (a.addFile i).file i = ⟨0, sfsTypeFile, 0, fun _ => 0⟩ :=
  a.setFile_file i _

theorem addFile_file_ne (hj : j ≠ i) : (a.addFile i).file j = a.file j :=
  a.setFile_file_ne hj _

theorem Live.of_addFile (hi1 : i ≠ 1) (hj : j ≠ i) (h : (a.addFile i).Live j) : a.Live j := by
  rcases h with h1 | hr | hn
  · exact Or.inl h1
  · refine Or.inr (Or.inl ?_)
    change update a.refs i 1 j ≠ 0 at hr
    rwa [update_of_ne hj] at hr
  · rw [addFile_file_ne hi1.symm] at hn
    exact Or.inr (Or.inr hn)

theorem WF.addFile (h : a.WF) (hi : ¬a.Live i) : (a.addFile i).WF := by
  have hi1 : i ≠ 1 := fun h1 => hi (Or.inl h1)
  have hroot : (a.addFile i).file 1 = a.file 1 := addFile_file_ne hi1.symm
  refine ⟨hroot ▸ h.root, ?_, ?_, ?_⟩
  · rw [hroot]
    exact h.named
  · intro j hj hj1
    by_cases hji : j = i
    · subst hji
      rw [addFile_file]
    · rw [addFile_file_ne hji, h.file (hj.of_addFile hi1 hji) hj1]
  · intro j hj hj1
    rw [hroot]
    by_cases hji : j = i
    · subst hji
      rw [addFile_file]
      exact (FileView.card_linkSlots_eq_zero.mpr fun hn => hi (Or.inr (Or.inr hn))).symm
    · rw [addFile_file_ne hji, h.links (hj.of_addFile hi1 hji) hj1]

/-- When a file without a name is gone, every other one is as it was. -/
theorem Live.of_gone (hi1 : i ≠ 1) (hgone : ¬(a.file 1).Names i)
    (hj : ((a.setFile i FileView.none).setRefs i 0).Live j) : a.Live j ∧ j ≠ i := by
  have hroot : (a.setFile i FileView.none).file 1 = a.file 1 := a.setFile_file_ne hi1.symm _
  have hji : j ≠ i := by
    rintro rfl
    rcases hj with h1 | h0 | hn
    · exact hi1 h1
    · exact h0 (update_self _ _ _)
    · exact hgone (hroot ▸ hn)
  refine ⟨?_, hji⟩
  rcases hj with h1 | h0 | hn
  · exact Or.inl h1
  · refine Or.inr (Or.inl ?_)
    change update a.refs i 0 j ≠ 0 at h0
    rwa [update_of_ne hji] at h0
  · exact Or.inr (Or.inr (hroot ▸ hn))

theorem WF.decref (h : a.WF) (hi : a.Live i) : (a.decref i).WF := by
  unfold Fs.decref
  split_ifs with hr hl
  · exact h.setRefs hi _
  · have hi1 : i ≠ 1 := by
      rintro rfl
      exact h.root.links hl
    have hgone := (h.links_eq_zero hi hi1).mp hl
    have hroot : (a.setFile i FileView.none).file 1 = a.file 1 := a.setFile_file_ne hi1.symm _
    refine ⟨hroot ▸ h.root, fun hn => h.named (hroot ▸ hn), fun hj hj1 => ?_, fun {j} hj hj1 => ?_⟩
    · obtain ⟨hj, hji⟩ := hj.of_gone hi1 hgone
      exact (congrArg FileView.type (a.setFile_file_ne hji _)).trans (h.file hj hj1)
    · obtain ⟨hj, hji⟩ := hj.of_gone hi1 hgone
      change ((a.setFile i FileView.none).file j).links =
        (((a.setFile i FileView.none).file 1).linkSlots j).card
      rw [hroot, a.setFile_file_ne hji, h.links hj hj1]
  · exact h.setRefs hi _

/-- A file with another link count. -/
def setLinks (a : Fs) (i n : ℕ) : Fs :=
  a.setFile i { a.file i with links := n }

/-- The directory with slot `k` replaced. -/
def setSlot (a : Fs) (k : ℕ) (d : DiskBlock) : Fs :=
  a.setFile 1 ((a.file 1).setEntry k d)

/-- A name is bound in slot `k`, and the link is counted. -/
def bindName (a : Fs) (k : ℕ) (name : CString) (i : ℕ) : Fs :=
  (a.setSlot k (direntry i name.bytes)).setLinks i ((a.file i).links + 1)

/-- Slot `k` with a name of file `i` is emptied, and the link is no longer counted. -/
def unbindSlot (a : Fs) (k i : ℕ) : Fs :=
  (a.setSlot k (direntry 0 [])).setLinks i ((a.file i).links - 1)

section Slots

variable {d : DiskBlock} {n : ℕ}

theorem setSlot_file_ne (hi : i ≠ 1) : (a.setSlot k d).file i = a.file i :=
  a.setFile_file_ne hi _

theorem setSlot_root : (a.setSlot k d).file 1 = (a.file 1).setEntry k d :=
  a.setFile_file 1 _

theorem setLinks_file_ne (hj : j ≠ i) : (a.setLinks i n).file j = a.file j :=
  a.setFile_file_ne hj _

theorem setLinks_file : (a.setLinks i n).file i = { a.file i with links := n } :=
  a.setFile_file i _

theorem Live.of_setSlot (hi1 : i ≠ 1) (hr : a.refs i ≠ 0)
    (hnames : ∀ j, j ≠ i → (((a.file 1).setEntry k d).Names j ↔ (a.file 1).Names j))
    (hj : ((a.setSlot k d).setLinks i n).Live j) : a.Live j := by
  by_cases hji : j = i
  · exact hji ▸ Or.inr (Or.inl hr)
  · rcases hj with h1 | h0 | hnm
    · exact Or.inl h1
    · exact Or.inr (Or.inl h0)
    · rw [setLinks_file_ne hi1.symm, setSlot_root, hnames j hji] at hnm
      exact Or.inr (Or.inr hnm)

/-- A slot is written and the links of a file in memory are counted anew. -/
theorem WF.setSlot_setLinks (h : a.WF) (hi1 : i ≠ 1) (hr : a.refs i ≠ 0)
    (hdir : ((a.file 1).setEntry k d).IsDir)
    (hnames : ∀ j, j ≠ i → (((a.file 1).setEntry k d).Names j ↔ (a.file 1).Names j))
    (hslots : ∀ j, j ≠ i → ((a.file 1).setEntry k d).linkSlots j = (a.file 1).linkSlots j)
    (hn : n = (((a.file 1).setEntry k d).linkSlots i).card) :
    ((a.setSlot k d).setLinks i n).WF := by
  set a' := (a.setSlot k d).setLinks i n with ha'
  have hroot : a'.file 1 = (a.file 1).setEntry k d := by
    rw [ha', setLinks_file_ne hi1.symm, setSlot_root]
  have hself : a'.file i = { a.file i with links := n } := by
    rw [ha', setLinks_file, setSlot_file_ne hi1]
  have hne : ∀ j, j ≠ i → j ≠ 1 → a'.file j = a.file j := fun j hj hj1 => by
    rw [ha', setLinks_file_ne hj, setSlot_file_ne hj1]
  have hilive : a.Live i := Or.inr (Or.inl hr)
  have hlive : ∀ j, a'.Live j → a.Live j := fun j => Live.of_setSlot hi1 hr hnames
  refine ⟨hroot ▸ hdir, fun {j} hnm => ?_, fun {j} hj hj1 => ?_, fun {j} hj hj1 => ?_⟩
  · rw [hroot] at hnm
    by_cases hji : j = i
    · exact hji ▸ hi1
    · exact h.named ((hnames j hji).mp hnm)
  · by_cases hji : j = i
    · subst hji
      rw [hself]
      exact h.file hilive hi1
    · rw [hne j hji hj1, h.file (hlive j hj) hj1]
  · rw [hroot]
    by_cases hji : j = i
    · subst hji
      rw [hself]
      exact hn
    · rw [hne j hji hj1, hslots j hji, h.links (hlive j hj) hj1]

end Slots

theorem WF.bindName (h : a.WF) (hi1 : i ≠ 1) (hr : a.refs i ≠ 0) (h0 : i ≠ 0) (h32 : i < 2 ^ 32)
    (hk : (a.file 1).FreeSlot k) (hname : ∀ k', ¬(a.file 1).Binds name.bytes k')
    (hlen : name.bytes.length ≤ 59) : (a.bindName k name i).WF := by
  have hino := sfdIno_direntry h32 name.bytes
  have hnm := sfdName_direntry i hlen
  have hslots := fun j => hk.linkSlots_eq (d := direntry i name.bytes) (j := j) hino h0
  refine h.setSlot_setLinks hi1 hr ?_ (fun j hj => ?_) (fun j hj => ?_) ?_
  · refine h.root.setEntry hk.le hk.lt fun k' _ hb => ?_
    rw [hnm] at hb
    exact absurd hb (hname k')
  · rw [hk.names_iff hino h0]
    exact or_iff_left hj
  · rw [hslots, if_neg hj]
  · rw [hslots, if_pos rfl, Finset.card_insert_of_notMem, h.links (Or.inr (Or.inl hr)) hi1]
    exact fun hmem => hk.not_namedAt (FileView.mem_linkSlots.mp hmem)

theorem WF.unbindSlot (h : a.WF) (hr : a.refs i ≠ 0) (hk : (a.file 1).NamedAt k i) :
    (a.unbindSlot k i).WF := by
  have hi1 : i ≠ 1 := h.named ⟨k, hk⟩
  have hd : sfdIno (direntry 0 []) = 0 := sfdIno_direntry (by decide) []
  have hslots := fun j => FileView.linkSlots_unlink (j := j) hk.1 hd hk.2.2
  refine h.setSlot_setLinks hi1 hr ?_ (fun j hj => ?_) (fun j hj => ?_) ?_
  · exact h.root.setEntry hk.1.le (hk.1.trans_le h.root.nslots_le) fun _ h0 => absurd hd h0
  · exact FileView.names_unlink hk.1 hd fun hj' => hj (hj'.trans hk.2.2)
  · rw [hslots, if_neg hj]
  · rw [hslots, if_pos rfl, Finset.card_erase_of_mem (FileView.mem_linkSlots.mpr hk),
      h.links (Or.inr (Or.inl hr)) hi1]

end Fs

end OS161
