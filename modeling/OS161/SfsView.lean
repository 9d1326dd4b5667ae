import OS161.Holders
import OS161.SfsOps

/-!
# What a volume means

A file is a size, a type, a link count and bytes. `Volume.view` reads them off the volume : the
current inode of a file is the one in memory, if it is there, and the block on disk otherwise,
and a block number `0` stands for zeros. `Volume.abs` puts this together : the files that are
live, which are the root directory, the files in memory and those named in the directory, and
how many references there are to each.

`Volume.Ref o b` says that block `b` is referred to in the role `o` : as the superblock, a block
of the freemap, an inode, an indirect block or a data block. `Volume.Phys` is the invariant of
the volume : the freemap marks the blocks that are referred to, each in one role, and what is
clean in memory is on disk. It has a set of `loose` blocks, which are marked although nothing
refers to them.
-/

namespace OS161

open Function

/-! ## The fields of an inode -/

section Fields

variable (d : DiskBlock) (i j n : ℕ)

theorem sfiSize_lt : sfiSize d < 2 ^ 32 :=
  getWord_lt d 0

theorem sfiLinkcount_lt : sfiLinkcount d < 2 ^ 16 :=
  Nat.mod_lt _ (by decide)

theorem sfiType_lt : sfiType d < 2 ^ 16 := by
  have := getWord_lt d 1
  unfold sfiType
  omega

@[simp] theorem sfiSize_setSfiSize : sfiSize (setSfiSize n d) = n % 2 ^ 32 :=
  getWord_setWord_self d 0 n

@[simp] theorem sfiType_setSfiSize : sfiType (setSfiSize n d) = sfiType d :=
  congrArg (· / 2 ^ 16) (getWord_setWord_ne (by decide))

@[simp] theorem sfiLinkcount_setSfiSize : sfiLinkcount (setSfiSize n d) = sfiLinkcount d :=
  congrArg (· % 2 ^ 16) (getWord_setWord_ne (by decide))

@[simp] theorem sfiDirect_setSfiSize : sfiDirect (setSfiSize n d) i = sfiDirect d i :=
  getWord_setWord_ne (by omega)

@[simp] theorem sfiIndirect_setSfiSize : sfiIndirect (setSfiSize n d) = sfiIndirect d :=
  getWord_setWord_ne (by decide)

@[simp] theorem sfiSize_setSfiLinkcount : sfiSize (setSfiLinkcount n d) = sfiSize d :=
  getWord_setWord_ne (by decide)

@[simp] theorem sfiType_setSfiLinkcount : sfiType (setSfiLinkcount n d) = sfiType d := by
  have ht := sfiType_lt d
  unfold setSfiLinkcount
  conv_lhs => rw [sfiType, getWord_setWord_self]
  omega

@[simp] theorem sfiLinkcount_setSfiLinkcount :
    sfiLinkcount (setSfiLinkcount n d) = n % 2 ^ 16 := by
  unfold setSfiLinkcount
  conv_lhs => rw [sfiLinkcount, getWord_setWord_self]
  omega

@[simp] theorem sfiDirect_setSfiLinkcount :
    sfiDirect (setSfiLinkcount n d) i = sfiDirect d i :=
  getWord_setWord_ne (by omega)

@[simp] theorem sfiIndirect_setSfiLinkcount :
    sfiIndirect (setSfiLinkcount n d) = sfiIndirect d :=
  getWord_setWord_ne (by decide)

@[simp] theorem sfiSize_setSfiType : sfiSize (setSfiType n d) = sfiSize d :=
  getWord_setWord_ne (by decide)

theorem sfiType_setSfiType (hn : n < 2 ^ 16) : sfiType (setSfiType n d) = n := by
  have hl := sfiLinkcount_lt d
  unfold setSfiType
  conv_lhs => rw [sfiType, getWord_setWord_self]
  omega

@[simp] theorem sfiLinkcount_setSfiType : sfiLinkcount (setSfiType n d) = sfiLinkcount d := by
  have hl := sfiLinkcount_lt d
  unfold setSfiType
  conv_lhs => rw [sfiLinkcount, getWord_setWord_self]
  omega

@[simp] theorem sfiDirect_setSfiType : sfiDirect (setSfiType n d) i = sfiDirect d i :=
  getWord_setWord_ne (by omega)

@[simp] theorem sfiIndirect_setSfiType : sfiIndirect (setSfiType n d) = sfiIndirect d :=
  getWord_setWord_ne (by decide)

@[simp] theorem sfiSize_setSfiDirect : sfiSize (setSfiDirect i n d) = sfiSize d :=
  getWord_setWord_ne (by omega)

@[simp] theorem sfiType_setSfiDirect : sfiType (setSfiDirect i n d) = sfiType d :=
  congrArg (· / 2 ^ 16) (getWord_setWord_ne (by omega))

@[simp] theorem sfiLinkcount_setSfiDirect :
    sfiLinkcount (setSfiDirect i n d) = sfiLinkcount d :=
  congrArg (· % 2 ^ 16) (getWord_setWord_ne (by omega))

theorem sfiDirect_setSfiDirect :
    sfiDirect (setSfiDirect i n d) j = if j = i then n % 2 ^ 32 else sfiDirect d j := by
  unfold sfiDirect setSfiDirect
  rw [getWord_setWord]
  refine if_congr ?_ rfl rfl
  omega

theorem sfiIndirect_setSfiDirect (hi : i < 15) :
    sfiIndirect (setSfiDirect i n d) = sfiIndirect d :=
  getWord_setWord_ne (by omega)

@[simp] theorem sfiSize_setSfiIndirect : sfiSize (setSfiIndirect n d) = sfiSize d :=
  getWord_setWord_ne (by decide)

@[simp] theorem sfiType_setSfiIndirect : sfiType (setSfiIndirect n d) = sfiType d :=
  congrArg (· / 2 ^ 16) (getWord_setWord_ne (by decide))

@[simp] theorem sfiLinkcount_setSfiIndirect :
    sfiLinkcount (setSfiIndirect n d) = sfiLinkcount d :=
  congrArg (· % 2 ^ 16) (getWord_setWord_ne (by decide))

theorem sfiDirect_setSfiIndirect (hi : i < 15) :
    sfiDirect (setSfiIndirect n d) i = sfiDirect d i :=
  getWord_setWord_ne (by omega)

@[simp] theorem sfiIndirect_setSfiIndirect : sfiIndirect (setSfiIndirect n d) = n % 2 ^ 32 :=
  getWord_setWord_self d 17 n

end Fields

theorem sfsFreemapbits_eq (n : ℕ) : sfsFreemapbits n = sfsFreemapblocks n * 4096 := by
  unfold sfsFreemapblocks sfsFreemapbits
  omega

/-! ## Files -/

/-- The disk block with block `fb` of the file with inode `d`, or `0`. -/
def filePtr (disk : ℕ → DiskBlock) (d : DiskBlock) (fb : ℕ) : ℕ :=
  if fb < 15 then sfiDirect d fb
  else if fb < 143 ∧ sfiIndirect d ≠ 0 then getWord (disk (sfiIndirect d)) (fb - 15)
  else 0

/-- The bytes of the file with inode `d`. -/
def fileByte (disk : ℕ → DiskBlock) (d : DiskBlock) (off : ℕ) : UInt8 :=
  if filePtr disk d (off / 512) = 0 then 0
  else disk (filePtr disk d (off / 512)) (off % 512)

/-- A file as its users see it. -/
@[ext] structure FileView where
  size : ℕ
  type : ℕ
  links : ℕ
  byte : ℕ → UInt8

/-- The file with inode `d`. -/
def viewOf (disk : ℕ → DiskBlock) (d : DiskBlock) : FileView where
  size := sfiSize d
  type := sfiType d
  links := sfiLinkcount d
  byte := fileByte disk d

namespace FileView

variable (f : FileView)

/-- The number of slots of a directory. -/
def nslots : ℕ :=
  f.size / 64

/-- The entry in a slot of a directory. -/
def entry (slot : ℕ) : DiskBlock :=
  fun k => f.byte (slot * 64 + k)

/-- The file with the bytes of block `fb` replaced. -/
def setBlock (fb : ℕ) (data : DiskBlock) : FileView :=
  { f with byte := fun off => if off / 512 = fb then data (off % 512) else f.byte off }

/-- Slot `slot` of the directory names inode `i`. -/
def NamedAt (slot i : ℕ) : Prop :=
  slot < f.nslots ∧ i ≠ 0 ∧ sfdIno (f.entry slot) = i

/-- The directory names inode `i`. -/
def Names (i : ℕ) : Prop :=
  ∃ slot, f.NamedAt slot i

end FileView

/-- The file system as its users see it : the files, and how often each is referred to. -/
@[ext] structure Fs where
  nblocks : ℕ
  file : ℕ → FileView
  refs : ℕ → ℕ

/-- What is said of an inode that is not in use. -/
def FileView.none : FileView :=
  ⟨0, 0, 0, fun _ => 0⟩

namespace Fs

variable (a : Fs)

/-- An inode in use : the root directory, a file in memory, or a named one. -/
def Live (i : ℕ) : Prop :=
  i = 1 ∨ a.refs i ≠ 0 ∨ (a.file 1).Names i

/-- File `i` is `f` now. -/
def setFile (i : ℕ) (f : FileView) : Fs :=
  { a with file := update a.file i f }

/-- Vnode `i` has `n` references now. -/
def setRefs (i n : ℕ) : Fs :=
  { a with refs := update a.refs i n }

theorem setFile_self (i : ℕ) : a.setFile i (a.file i) = a := by
  unfold setFile
  rw [update_eq_self]

theorem setFile_setFile (i : ℕ) (f g : FileView) : (a.setFile i f).setFile i g = a.setFile i g := by
  unfold setFile
  rw [update_idem]

theorem setFile_file (i : ℕ) (f : FileView) : (a.setFile i f).file i = f :=
  update_self _ _ _

theorem setFile_file_ne {i j : ℕ} (h : j ≠ i) (f : FileView) :
    (a.setFile i f).file j = a.file j :=
  update_of_ne h _ _

theorem setRefs_self (i : ℕ) : a.setRefs i (a.refs i) = a := by
  unfold setRefs
  rw [update_eq_self]

end Fs

namespace Volume

variable (v : Volume)

/-- The current inode of a file. -/
def inode (i : ℕ) : DiskBlock :=
  (v.loaded i).elim (v.disk i) SfsVnode.svI

/-- The inode is in memory. -/
def Loaded (i : ℕ) : Prop :=
  (v.loaded i).isSome

/-- File `i` as its users see it. -/
def view (i : ℕ) : FileView :=
  viewOf v.disk (v.inode i)

/-- The disk block with block `fb` of file `i`. -/
def ptr (i fb : ℕ) : ℕ :=
  filePtr v.disk (v.inode i) fb

/-- The root, what is in memory, and what has a name. -/
def Live (i : ℕ) : Prop :=
  i = 1 ∨ v.Loaded i ∨ (v.view 1).Names i

/-- The references to a vnode. -/
def refs (i : ℕ) : ℕ :=
  (v.loaded i).elim 0 SfsVnode.vnRefcount

open Classical in
/-- The file system on the volume. -/
noncomputable def abs : Fs where
  nblocks := v.sbNblocks
  file i := if v.Live i then v.view i else FileView.none
  refs := v.refs

/-! ## Who refers to a block -/

/-- The roles of a block. -/
inductive Role
  | super
  | freemap (j : ℕ)
  | inode (i : ℕ)
  | indirect (i : ℕ)
  | data (i fb : ℕ)
  deriving DecidableEq

/-- The file a role belongs to. -/
def Role.file : Role → Option ℕ
  | .super | .freemap _ => none
  | .inode i | .indirect i | .data i _ => some i

/-- DiskBlock `b` is referred to in this role. -/
def Ref : Role → ℕ → Prop
  | .super, b => b = 0
  | .freemap j, b => j < sfsFreemapblocks v.sbNblocks ∧ b = 2 + j
  | .inode i, b => v.Live i ∧ b = i
  | .indirect i, b => v.Live i ∧ b ≠ 0 ∧ sfiIndirect (v.inode i) = b
  | .data i fb, b => v.Live i ∧ b ≠ 0 ∧ v.ptr i fb = b

/-- The freemap bit of a block of the volume is set. -/
def InUse (b : ℕ) : Prop :=
  b < v.sbNblocks ∧ v.sfsFreemap.Marked b

/-- The invariant of a volume, but for the blocks in `loose`. -/
structure Phys (loose : Set ℕ) : Prop where
  nbits : v.sfsFreemap.nbits = sfsFreemapbits v.sbNblocks
  cover : v.sbNblocks ≤ sfsFreemapbits v.sbNblocks
  padding : ∀ b, v.sbNblocks ≤ b → b < sfsFreemapbits v.sbNblocks → v.sfsFreemap.Marked b
  device : v.sbNblocks ≤ v.dBlocks
  super : getWord (v.disk 0) 0 = sfsMagic ∧ getWord (v.disk 0) 1 = v.sbNblocks
  nodup : (v.sfsVnodes.map SfsVnode.svIno).Nodup
  counted : ∀ sv ∈ v.sfsVnodes, 0 < sv.vnRefcount
  held : Held v.InUse v.Ref loose
  /-- An inode in memory that is not dirty is on disk. -/
  clean : ∀ sv ∈ v.sfsVnodes, sv.svDirty = false → sv.svI = v.disk sv.svIno
  /-- A freemap that is not dirty is on disk. -/
  cleanMap : v.sfsFreemapdirty = false → ∀ ix < sfsFreemapbits v.sbNblocks / 8,
    v.disk (2 + ix / 512) (ix % 512) = ⟨v.sfsFreemap.v ix⟩

end Volume

/-! ## What a file depends on -/

section Frame

variable {disk disk' : ℕ → DiskBlock} {d d' : DiskBlock} {b : ℕ} {fb j : ℕ}

theorem filePtr_direct (h : fb < 15) : filePtr disk d fb = sfiDirect d fb :=
  if_pos h

theorem filePtr_entry (hj : j < 128) (h : sfiIndirect d ≠ 0) :
    filePtr disk d (15 + j) = getWord (disk (sfiIndirect d)) j := by
  unfold filePtr
  rw [if_neg (by omega), if_pos ⟨by omega, h⟩, Nat.add_sub_cancel_left]

theorem filePtr_no_indirect (hfb : 15 ≤ fb) (h : sfiIndirect d = 0) :
    filePtr disk d fb = 0 := by
  unfold filePtr
  rw [if_neg (by omega), if_neg (by simp [h])]

theorem filePtr_big (hfb : 143 ≤ fb) : filePtr disk d fb = 0 := by
  unfold filePtr
  rw [if_neg (by omega), if_neg (by omega)]

theorem lt_of_filePtr_ne_zero (h : filePtr disk d fb ≠ 0) : fb < 143 := by
  by_contra hfb
  exact h (filePtr_big (by omega))

/-- The block numbers are those in the inode and in the indirect block. -/
theorem filePtr_congr (hdir : ∀ j < 15, sfiDirect d' j = sfiDirect d j)
    (hind : sfiIndirect d' = sfiIndirect d)
    (hdisk : sfiIndirect d ≠ 0 → disk' (sfiIndirect d) = disk (sfiIndirect d)) :
    filePtr disk' d' = filePtr disk d := by
  funext fb
  unfold filePtr
  rw [hind]
  split_ifs with h1 h2
  · exact hdir fb h1
  · rw [hdisk h2.2]
  · rfl

/-- The bytes are those in the blocks. -/
theorem fileByte_congr (hptr : filePtr disk' d' = filePtr disk d)
    (hdisk : ∀ fb, filePtr disk d fb ≠ 0 → disk' (filePtr disk d fb) = disk (filePtr disk d fb)) :
    fileByte disk' d' = fileByte disk d := by
  funext off
  unfold fileByte
  rw [hptr]
  split_ifs with h
  · rfl
  · rw [hdisk _ h]

/-- A new block that is clear, in the place of a missing one. -/
theorem fileByte_attach (hptr : filePtr disk' d' = update (filePtr disk d) fb b)
    (h0 : filePtr disk d fb = 0) (hz : disk' b = zeroBlock)
    (hdisk : ∀ fb, filePtr disk d fb ≠ 0 → disk' (filePtr disk d fb) = disk (filePtr disk d fb)) :
    fileByte disk' d' = fileByte disk d := by
  funext off
  unfold fileByte
  rw [hptr]
  by_cases hoff : off / 512 = fb
  · rw [hoff, update_self, h0, if_pos rfl, hz]
    exact ite_self _
  · rw [update_of_ne hoff]
    split_ifs with h
    · rfl
    · rw [hdisk _ h]

theorem filePtr_setSfiDirect (hj : j < 15) (hb : b < 2 ^ 32) :
    filePtr disk (setSfiDirect j b d) = update (filePtr disk d) j b := by
  funext fb
  by_cases hfb : fb = j
  · subst hfb
    rw [update_self, filePtr_direct hj, sfiDirect_setSfiDirect, if_pos rfl,
      Nat.mod_eq_of_lt hb]
  · rw [update_of_ne hfb]
    unfold filePtr
    rw [sfiDirect_setSfiDirect, if_neg hfb, sfiIndirect_setSfiDirect d j b hj]

/-- A new indirect block that is clear. -/
theorem filePtr_setSfiIndirect (h0 : sfiIndirect d = 0) (hb : b < 2 ^ 32)
    (hz : disk b = zeroBlock) : filePtr disk (setSfiIndirect b d) = filePtr disk d := by
  funext fb
  unfold filePtr
  rw [sfiIndirect_setSfiIndirect, Nat.mod_eq_of_lt hb, h0, hz]
  split_ifs with h1 h2 h3
  · exact sfiDirect_setSfiIndirect d fb b h1
  · exact absurd rfl h3.2
  · exact getWord_zero _
  · exact absurd rfl ‹_ ∧ _›.2
  · rfl

/-- A new entry of the indirect block. -/
theorem filePtr_enter (hj : j < 128) (hid : sfiIndirect d ≠ 0) (hb : b < 2 ^ 32) :
    filePtr (update disk (sfiIndirect d) (setWord (disk (sfiIndirect d)) j b)) d =
      update (filePtr disk d) (15 + j) b := by
  funext fb
  by_cases hfb : fb = 15 + j
  · subst hfb
    rw [filePtr_entry hj hid, update_self, update_self, getWord_setWord_self,
      Nat.mod_eq_of_lt hb]
  · rw [update_of_ne hfb]
    unfold filePtr
    split_ifs with h1 h2
    · rfl
    · rw [update_self, getWord_setWord_ne (by omega)]
    · rfl

/-- An inode with the same blocks has the same contents. -/
theorem viewOf_attrs (hdir : ∀ j < 15, sfiDirect d' j = sfiDirect d j)
    (hind : sfiIndirect d' = sfiIndirect d) :
    viewOf disk d' = ⟨sfiSize d', sfiType d', sfiLinkcount d', (viewOf disk d).byte⟩ :=
  FileView.ext rfl rfl rfl
    (fileByte_congr (filePtr_congr hdir hind fun _ => rfl) fun _ _ => rfl)

/-- The blocks with the contents of the file with inode `d`. -/
def Touches (disk : ℕ → DiskBlock) (d : DiskBlock) (b : ℕ) : Prop :=
  b ≠ 0 ∧ (sfiIndirect d = b ∨ ∃ fb, filePtr disk d fb = b)

theorem filePtr_update (h : ¬Touches disk d b) (data : DiskBlock) :
    filePtr (update disk b data) d = filePtr disk d := by
  refine filePtr_congr (fun _ _ => rfl) rfl fun h0 => update_of_ne ?_ _ _
  rintro rfl
  exact h ⟨h0, Or.inl rfl⟩

theorem viewOf_update (h : ¬Touches disk d b) (data : DiskBlock) :
    viewOf (update disk b data) d = viewOf disk d := by
  have hbyte : fileByte (update disk b data) d = fileByte disk d := by
    refine fileByte_congr (filePtr_update h data) fun fb h0 => update_of_ne ?_ _ _
    rintro rfl
    exact h ⟨h0, Or.inr ⟨fb, rfl⟩⟩
  unfold viewOf
  rw [hbyte]

end Frame

end OS161
