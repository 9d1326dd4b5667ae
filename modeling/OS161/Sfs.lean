import OS161.Bitmap
import OS161.Call
import OS161.Uio
import OS161.Words

/-!
# SFS : the volume, blocks and file I/O

The file system keeps a bitmap of the blocks in use, an inode for each file, and one root
directory. Each inode is a block, with fifteen direct block numbers and the number of one
indirect block, which holds a hundred and twenty-eight more. Inodes in use are in memory, in
the table of vnodes, and are written back when they are reclaimed or the volume is synced.

This module is `sfs_balloc.c`, `sfs_bmap.c` and `sfs_io.c`. A block has 512 bytes
(`SFS_BLOCKSIZE`), a directory entry 64, an inode 15 direct blocks (`SFS_NDIRECT`) and one
indirect block with 128 entries (`SFS_DBPERIDB`). An inode in memory is its block, and its
fields are words of the block.

The device answers each request of the file system, after the retries of `sfs_rwblock`, with
success or `EIO`. The answers to come are part of the state (`io`), and so are those of
`kmalloc` (`memory`). A vnode is named by its inode number. The functions run under
`vfs_biglock`, and the volume name in the texts of the panics is left out.

Three fields are there to talk about failures and nothing reads them : `calls` is the number of
requests to the device so far, `idcalls` are those among them that write an indirect block, and
`leaked` are the blocks that `sfs_bmap` allocated and could not enter into an indirect block.
-/

namespace OS161

/-! ## The format -/

/-- The bytes of a disk block. -/
abbrev DiskBlock : Type :=
  ℕ → UInt8

/-- A cleared block. -/
def zeroBlock : DiskBlock :=
  fun _ => 0

/-- `SFS_MAGIC`. -/
def sfsMagic : ℕ :=
  0xabadf001

/-- `SFS_TYPE_INVAL`. -/
def sfsTypeInval : ℕ :=
  0

/-- `SFS_TYPE_FILE`. -/
def sfsTypeFile : ℕ :=
  1

/-- `SFS_TYPE_DIR`. -/
def sfsTypeDir : ℕ :=
  2

/-- `SFS_NOINO`, the number of no inode. -/
def sfsNoino : ℕ :=
  0

/-- `SFS_ROOTDIR_INO`. -/
def sfsRootdirIno : ℕ :=
  1

/-- `SFS_FREEMAPBITS(nblocks)`. -/
def sfsFreemapbits (nblocks : ℕ) : ℕ :=
  word32 (nblocks + 4095) / 4096 * 4096

/-- `SFS_FREEMAPBLOCKS(nblocks)`. -/
def sfsFreemapblocks (nblocks : ℕ) : ℕ :=
  sfsFreemapbits nblocks / 4096

/-! ### `struct sfs_dinode` -/

/-- `sfi_size`, word `0`. -/
def sfiSize (d : DiskBlock) : ℕ :=
  getWord d 0

/-- `sfi_type`, the upper half of word `1`. -/
def sfiType (d : DiskBlock) : ℕ :=
  getWord d 1 / 2 ^ 16

/-- `sfi_linkcount`, the lower half of word `1`. -/
def sfiLinkcount (d : DiskBlock) : ℕ :=
  getWord d 1 % 2 ^ 16

/-- `sfi_direct[i]`. -/
def sfiDirect (d : DiskBlock) (i : ℕ) : ℕ :=
  getWord d (2 + i)

/-- `sfi_indirect`. -/
def sfiIndirect (d : DiskBlock) : ℕ :=
  getWord d 17

/-- A store into `sfi_size`. -/
def setSfiSize (size : ℕ) (d : DiskBlock) : DiskBlock :=
  setWord d 0 size

/-- A store into `sfi_type`. -/
def setSfiType (type : ℕ) (d : DiskBlock) : DiskBlock :=
  setWord d 1 (type * 2 ^ 16 + sfiLinkcount d)

/-- A store into `sfi_linkcount`. -/
def setSfiLinkcount (n : ℕ) (d : DiskBlock) : DiskBlock :=
  setWord d 1 (sfiType d * 2 ^ 16 + n % 2 ^ 16)

/-- A store into `sfi_direct[i]`. -/
def setSfiDirect (i block : ℕ) (d : DiskBlock) : DiskBlock :=
  setWord d (2 + i) block

/-- A store into `sfi_indirect`. -/
def setSfiIndirect (block : ℕ) (d : DiskBlock) : DiskBlock :=
  setWord d 17 block

/-! ## The state -/

/-- `struct sfs_vnode`, with the reference count of its `struct vnode`. -/
structure SfsVnode where
  svI : DiskBlock
  svIno : ℕ
  svDirty : Bool
  vnRefcount : ℕ

/-- A mounted volume : `struct sfs_fs` and the disk. -/
structure Volume where
  sbNblocks : ℕ
  sfsFreemap : Bitmap
  sfsFreemapdirty : Bool
  sfsVnodes : List SfsVnode
  dBlocks : ℕ
  disk : ℕ → DiskBlock

/-- A volume, with the answers of the device and of `kmalloc` to come. -/
structure Sfs extends Volume where
  io : ℕ → Bool
  memory : ℕ → Bool
  calls : ℕ
  idcalls : List ℕ
  leaked : List ℕ

/-- The functions of the file system. -/
abbrev SfsM (α : Type) : Type :=
  Call Halt Errno Sfs α

namespace Volume

variable (v : Volume)

/-- The vnode of an inode, if it is in memory. -/
def loaded (ino : ℕ) : Option SfsVnode :=
  v.sfsVnodes.find? fun sv => sv.svIno = ino

/-- Change the vnode of an inode. -/
def updateVnode (ino : ℕ) (f : SfsVnode → SfsVnode) : Volume :=
  { v with sfsVnodes := v.sfsVnodes.map fun sv => if sv.svIno = ino then f sv else sv }

/-- Write a block. -/
def setDisk (block : ℕ) (data : DiskBlock) : Volume :=
  { v with disk := Function.update v.disk block data }

end Volume

namespace Sfs

variable (s : Sfs)

/-- The volume has changed. -/
def withVolume (v : Volume) : Sfs :=
  { s with toVolume := v }

/-- The device has answered. -/
def ioDone : Sfs :=
  { s with io := fun n => s.io (n + 1), calls := s.calls + 1 }

/-- The next request to the device is to write an indirect block. -/
def idNoted : Sfs :=
  { s with idcalls := s.calls :: s.idcalls }

/-- `kmalloc` has answered. -/
def memoryDone : Sfs :=
  { s with memory := fun n => s.memory (n + 1) }

end Sfs

/-- Change the volume. -/
def onVolume (f : Volume → Volume) : SfsM Unit :=
  Call.modify fun s => s.withVolume (f s.toVolume)

/-- The vnode with this inode number. -/
def getVnode (ino : ℕ) : SfsM SfsVnode := do
  let s ← Call.get
  Call.lift (deref (s.loaded ino))

/-- Change the inode of a vnode, and set `sv_dirty`. -/
def setInode (ino : ℕ) (f : DiskBlock → DiskBlock) : SfsM Unit :=
  onVolume fun v => v.updateVnode ino fun sv => { sv with svI := f sv.svI, svDirty := true }

/-- Does `kmalloc` have the memory? -/
def kmallocAnswer : SfsM Bool :=
  fun s => .ok (.ok (s.memory 0), s.memoryDone)

/-! ## Reading and writing blocks -/

/-- The panic of `sfs_rwblock` for a block that is not on the device. -/
def ioPanic : Halt :=
  .panic "sfs: %s: DEVOP_IO returned EINVAL\n"

/-- `sfs_readblock`, with the retries for `EIO` behind the answer. -/
def sfsReadblock (block : ℕ) : SfsM DiskBlock :=
  fun s =>
    if s.dBlocks ≤ block then .error ioPanic
    else if s.io 0 then .ok (.ok (s.disk block), s.ioDone)
    else .ok (.error Errno.EIO, s.ioDone)

/-- `sfs_writeblock`. A failed request leaves the block as it was. -/
def sfsWriteblock (block : ℕ) (data : DiskBlock) : SfsM Unit :=
  fun s =>
    if s.dBlocks ≤ block then .error ioPanic
    else if s.io 0 then .ok (.ok (), s.ioDone.withVolume (s.setDisk block data))
    else .ok (.error Errno.EIO, s.ioDone)

/-- `sfs_writeblock` of an indirect block. -/
def sfsWriteIdblock (idblock : ℕ) (idbuf : DiskBlock) : SfsM Unit := do
  Call.modify Sfs.idNoted
  sfsWriteblock idblock idbuf

/-! ## `sfs_balloc.c` -/

/-- `sfs_clearblock`. -/
def sfsClearblock (block : ℕ) : SfsM Unit :=
  sfsWriteblock block zeroBlock

/-- `bitmap_unmark(sfs->sfs_freemap, block)`. -/
def unmarkBlock (block : ℕ) : SfsM Unit := do
  let s ← Call.get
  let freemap ← Call.lift (bitmapUnmark s.sfsFreemap block)
  onVolume fun v => { v with sfsFreemap := freemap }

/-- `sfs_balloc` : mark a free block and clear it. -/
def sfsBalloc : SfsM ℕ := do
  let s ← Call.get
  let r ← Call.lift (bitmapAlloc s.sfsFreemap)
  match r with
  | none => Call.fail .ENOSPC
  | some (diskblock, freemap) => do
    onVolume fun v => { v with sfsFreemap := freemap, sfsFreemapdirty := true }
    if s.sbNblocks ≤ diskblock then
      Call.stop (.panic "sfs: %s: balloc: invalid block %u\n")
    else do
      -- Clear block before returning it.
      let result ← (sfsClearblock diskblock).attempt
      match result with
      | .ok _ => pure diskblock
      | .error e => do
        unmarkBlock diskblock
        Call.fail e

/-- `sfs_bfree`. -/
def sfsBfree (diskblock : ℕ) : SfsM Unit := do
  unmarkBlock diskblock
  onVolume fun v => { v with sfsFreemapdirty := true }

/-- `sfs_bused`. -/
def sfsBused (diskblock : ℕ) : SfsM Bool := do
  let s ← Call.get
  if s.sbNblocks ≤ diskblock then
    Call.stop (.panic "sfs: %s: sfs_bused called on out of range block %u\n")
  else pure (bitmapIsset s.sfsFreemap diskblock)

/-! ## `sfs_bmap.c` -/

/-- The check at the end of `sfs_bmap`. -/
def handBack (block : ℕ) : SfsM ℕ :=
  if block = 0 then pure block
  else do
    let used ← sfsBused block
    if used then pure block
    else Call.stop (.panic "sfs: %s: Data block %u (block %u of file %u) marked free\n")

/-- The part of `sfs_bmap` for the direct blocks. -/
def bmapDirect (ino fileblock : ℕ) (doalloc : Bool) : SfsM ℕ := do
  let sv ← getVnode ino
  let block := sfiDirect sv.svI fileblock
  if block = 0 ∧ doalloc then do
    let block ← sfsBalloc
    setInode ino (setSfiDirect fileblock block)
    handBack block
  else handBack block

/-- Enter a new block into the indirect block `idblock` with contents `idbuf`. -/
def bmapEnter (idblock : ℕ) (idbuf : DiskBlock) (idoff : ℕ) : SfsM ℕ := do
  let block ← sfsBalloc
  let result ← (sfsWriteIdblock idblock (setWord idbuf idoff block)).attempt
  match result with
  | .ok _ => handBack block
  | .error e => do
    Call.modify fun s => { s with leaked := block :: s.leaked }
    Call.fail e

/-- The part of `sfs_bmap` for the blocks in the indirect block, `idoff` being the offset in
it. -/
def bmapIndirect (ino idoff : ℕ) (doalloc : Bool) : SfsM ℕ := do
  let sv ← getVnode ino
  let idblock := sfiIndirect sv.svI
  if idblock = 0 ∧ !doalloc then pure 0
  else if idblock = 0 then do
    let idblock ← sfsBalloc
    setInode ino (setSfiIndirect idblock)
    bmapEnter idblock zeroBlock idoff
  else do
    let idbuf ← sfsReadblock idblock
    let block := getWord idbuf idoff
    if block = 0 ∧ doalloc then bmapEnter idblock idbuf idoff
    else handBack block

/-- `sfs_bmap` : the disk block of a file block, or `0`, allocating it if `doalloc`. -/
def sfsBmap (ino fileblock : ℕ) (doalloc : Bool) : SfsM ℕ :=
  if fileblock < 15 then bmapDirect ino fileblock doalloc
  else if 1 ≤ (fileblock - 15) / 128 then Call.fail .EFBIG
  else bmapIndirect ino ((fileblock - 15) % 128) doalloc

/-- The body of the loop of `sfs_itrunc` over the direct blocks. -/
def itruncDirect (ino blocklen i : ℕ) : SfsM Unit := do
  let sv ← getVnode ino
  let block := sfiDirect sv.svI i
  if blocklen ≤ i ∧ block ≠ 0 then do
    sfsBfree block
    setInode ino (setSfiDirect i 0)
  else pure ()

/-- The body of the loop of `sfs_itrunc` over the entries of the indirect block, with the
buffer, `hasnonzero` and `iddirty`. -/
def itruncEntry (blocklen j : ℕ) (r : DiskBlock × Bool × Bool) : SfsM (DiskBlock × Bool × Bool) :=
  if blocklen < 15 + j ∧ getWord r.1 j ≠ 0 then do
    sfsBfree (getWord r.1 j)
    pure (setWord r.1 j 0, r.2.1, true)
  else pure (r.1, r.2.1 || getWord r.1 j ≠ 0, r.2.2)

/-- The loop of `sfs_itrunc` over the entries of the indirect block. -/
def itruncEntries (blocklen : ℕ) :
    List ℕ → DiskBlock × Bool × Bool → SfsM (DiskBlock × Bool × Bool)
  | [], r => pure r
  | j :: l, r => itruncEntry blocklen j r >>= itruncEntries blocklen l

/-- The part of `sfs_itrunc` for the indirect block. -/
def itruncIndirect (ino blocklen : ℕ) : SfsM Unit := do
  let sv ← getVnode ino
  let idblock := sfiIndirect sv.svI
  if blocklen < 15 + 128 - 1 ∧ idblock ≠ 0 then do
    let idbuf ← sfsReadblock idblock
    let r ← itruncEntries blocklen (List.range 128) (idbuf, false, false)
    if r.2.1 = false then do
      -- The whole indirect block is empty now; free it.
      sfsBfree idblock
      setInode ino (setSfiIndirect 0)
    else if r.2.2 then sfsWriteIdblock idblock r.1
    else pure ()
  else pure ()

/-- `DIVROUNDUP(len, SFS_BLOCKSIZE)` of a 64-bit length, as a 32-bit number. -/
def itruncBlocklen (len : ℤ) : ℕ :=
  ((len + 511).tdiv 512 % 2 ^ 32).toNat

/-- `sfs_itrunc` : free the blocks past `len` and set the size. -/
def sfsItrunc (ino : ℕ) (len : ℤ) : SfsM Unit := do
  Call.forEach (itruncDirect ino (itruncBlocklen len)) (List.range 15)
  itruncIndirect ino (itruncBlocklen len)
  setInode ino (setSfiSize (len % 2 ^ 32).toNat)

/-! ## `sfs_io.c` -/

/-- The functions that move data to or from a uio. -/
abbrev UioM (α : Type) : Type :=
  Call Halt Errno (Sfs × Uio) α

/-- A function of the file system that does not touch the uio. -/
def onFs {α : Type} (m : SfsM α) : UioM α :=
  fun p => m p.1 >>= fun r => .ok (r.1, (r.2, p.2))

/-- `uiomove`. -/
def moveUio (buf : DiskBlock) (ptr n : ℕ) : UioM DiskBlock :=
  fun p => uiomove buf ptr n p.2 >>= fun r => .ok (.ok r.1, (p.1, r.2))

/-- Change the uio. -/
def setUio (u : Uio) : UioM Unit :=
  Call.modify fun p => (p.1, u)

/-- `sfs_rwblock` for the sector the uio is at. -/
def sfsRwblock : UioM Unit :=
  fun p =>
    let block := p.2.uioOffset / 512
    if p.2.uioOffset % 512 ≠ 0 ∨ p.1.dBlocks ≤ block then .error ioPanic
    else if p.1.io 0 then do
      let r ← uiomove (p.1.disk block) 0 512 p.2
      match p.2.uioRw with
      | .read => .ok (.ok (), (p.1.ioDone, r.2))
      | .write => .ok (.ok (), (p.1.ioDone.withVolume (p.1.setDisk block r.1), r.2))
    else .ok (.error Errno.EIO, (p.1.ioDone, p.2))

/-- `sfs_partialio` : part of a block, through a buffer. -/
def sfsPartialio (ino skipstart len : ℕ) : UioM Unit := do
  let p ← Call.get
  let rw := p.2.uioRw
  Call.lift (kassert (skipstart + len ≤ 512) "skipstart + len <= SFS_BLOCKSIZE")
  let diskblock ← onFs (sfsBmap ino (word32 (p.2.uioOffset / 512)) (rw = .write))
  if diskblock = 0 then do
    Call.lift (kassert (rw = .read) "uio->uio_rw == UIO_READ")
    let _ ← moveUio zeroBlock skipstart len
    pure ()
  else do
    let iobuf ← onFs (sfsReadblock diskblock)
    let iobuf ← moveUio iobuf skipstart len
    if rw = .write then onFs (sfsWriteblock diskblock iobuf)
    else pure ()

/-- `sfs_blockio` : a whole block, between the device and the uio. -/
def sfsBlockio (ino : ℕ) : UioM Unit := do
  let p ← Call.get
  let u := p.2
  let diskblock ← onFs (sfsBmap ino (word32 (u.uioOffset / 512)) (u.uioRw = .write))
  if diskblock = 0 then do
    Call.lift (kassert (u.uioRw = .read) "uio->uio_rw == UIO_READ")
    let u' ← Call.lift (uiomovezeros 512 u)
    setUio u'
  else do
    let saveoff := u.uioOffset
    -- The product of a `daddr_t` and an `int` has 32 bits.
    let diskoff := word32 (diskblock * 512)
    Call.lift (kassert (512 ≤ u.uioResid) "uio->uio_resid >= SFS_BLOCKSIZE")
    let saveres := u.uioResid
    setUio { u with uioOffset := diskoff, uioResid := 512 }
    let result ← sfsRwblock.attempt
    Call.modify fun p => (p.1, { p.2 with
      uioOffset := p.2.uioOffset + saveoff - diskoff
      uioResid := p.2.uioResid + saveres - 512 })
    Call.report result

/-- The leading partial block of `sfs_io`. -/
def sfsLeading (ino : ℕ) : UioM Unit := do
  let p ← Call.get
  let blkoff := p.2.uioOffset % 512
  if blkoff ≠ 0 then sfsPartialio ino blkoff (min (512 - blkoff) p.2.uioResid)
  else pure ()

/-- The partial block at the end. -/
def sfsTrailing (ino : ℕ) : UioM Unit := do
  let p ← Call.get
  Call.lift (kassert (p.2.uioResid < 512) "uio->uio_resid < SFS_BLOCKSIZE")
  if 0 < p.2.uioResid then sfsPartialio ino 0 p.2.uioResid
  else pure ()

/-- `sfs_io` up to the label `out`. -/
def sfsTransfer (ino : ℕ) : UioM Unit := do
  sfsLeading ino
  let p ← Call.get
  if p.2.uioResid = 0 then pure ()
  else do
    Call.lift (kassert (p.2.uioOffset % 512 = 0) "uio->uio_offset % SFS_BLOCKSIZE == 0")
    Call.forEach (fun _ => sfsBlockio ino) (List.range (p.2.uioResid / 512))
    sfsTrailing ino

/-- If writing and we did anything, adjust file length. -/
def sfsGrow (ino origresid : ℕ) : UioM Unit := do
  let p ← Call.get
  let sv ← onFs (getVnode ino)
  if p.2.uioResid ≠ origresid ∧ p.2.uioRw = .write ∧ sfiSize sv.svI < p.2.uioOffset then
    onFs (setInode ino (setSfiSize p.2.uioOffset))
  else pure ()

/-- The end of `sfs_io`. -/
def sfsIoOut (ino origresid extraresid : ℕ) (result : Except Errno Unit) : UioM Unit := do
  sfsGrow ino origresid
  Call.modify fun p => (p.1, { p.2 with uioResid := word32 (p.2.uioResid + extraresid) })
  Call.report result

/-- `sfs_io` : the first part of a block, whole blocks, the last part. -/
def sfsIo (ino : ℕ) : UioM Unit := do
  let p ← Call.get
  let u := p.2
  let sv ← onFs (getVnode ino)
  let size := sfiSize sv.svI
  let endpos := u.uioOffset + u.uioResid
  if u.uioRw = .read ∧ size ≤ u.uioOffset then pure ()
  else if u.uioRw = .read ∧ size < endpos then do
    let extraresid := word32 (endpos - size)
    Call.lift (kassert (extraresid < u.uioResid) "uio->uio_resid > extraresid")
    setUio { u with uioResid := u.uioResid - extraresid }
    let result ← (sfsTransfer ino).attempt
    sfsIoOut ino u.uioResid extraresid result
  else do
    let result ← (sfsTransfer ino).attempt
    sfsIoOut ino u.uioResid 0 result

/-- `sfs_metaio`, which hands back the buffer. -/
def sfsMetaio (ino actualpos : ℕ) (data : DiskBlock) (len : ℕ) (rw : UioRw) : SfsM DiskBlock := do
  let vnblock := word32 (actualpos / 512)
  let blockoffset := actualpos % 512
  let diskblock ← sfsBmap ino vnblock (rw = .write)
  if diskblock = 0 then do
    Call.lift (kassert (rw = .read) "rw == UIO_READ")
    pure (moveBytes zeroBlock 0 data 0 len)
  else do
    let metaiobuf ← sfsReadblock diskblock
    match rw with
    | .read => pure (moveBytes metaiobuf blockoffset data 0 len)
    | .write => do
      sfsWriteblock diskblock (moveBytes data 0 metaiobuf blockoffset len)
      let sv ← getVnode ino
      if sfiSize sv.svI < actualpos + len then do
        setInode ino (setSfiSize (actualpos + len))
        pure data
      else pure data

/-- A volume of `n` blocks, all in use, whose file `1` has the inode `d` in memory. -/
def Sfs.withInode (n : ℕ) (d : DiskBlock) (disk : ℕ → DiskBlock) : Sfs where
  sbNblocks := n
  sfsFreemap := ⟨n, fun _ => 0xff#8⟩
  sfsFreemapdirty := false
  sfsVnodes := [⟨d, 1, false, 1⟩]
  dBlocks := n
  disk := disk
  io _ := true
  memory _ := true
  calls := 0
  idcalls := []
  leaked := []

/-! ## What the basic calls do -/

section

variable {s : Sfs} {ino b : ℕ} {sv : SfsVnode} {w : DiskBlock}

theorem getVnode_eq (h : s.loaded ino = some sv) : getVnode ino s = .ok (.ok sv, s) := by
  unfold getVnode
  rw [Call.get_bind_apply, h]
  rfl

theorem loaded_of_getVnode {s' : Sfs} (h : getVnode ino s = .ok (.ok sv, s')) :
    s.loaded ino = some sv ∧ s' = s := by
  unfold getVnode at h
  rw [Call.get_bind_apply] at h
  cases hsv : s.loaded ino with
  | none =>
    rw [hsv] at h
    cases h
  | some sv' =>
    rw [hsv] at h
    cases h
    exact ⟨rfl, rfl⟩

theorem sfsReadblock_eq (hb : b < s.dBlocks) : sfsReadblock b s =
    .ok (if s.io 0 then .ok (s.disk b) else .error Errno.EIO, s.ioDone) := by
  unfold sfsReadblock
  rw [if_neg (not_le.mpr hb)]
  split_ifs <;> rfl

theorem sfsWriteblock_eq (hb : b < s.dBlocks) : sfsWriteblock b w s =
    .ok (if s.io 0 then (.ok (), s.ioDone.withVolume (s.setDisk b w))
      else (.error Errno.EIO, s.ioDone)) := by
  unfold sfsWriteblock
  rw [if_neg (not_le.mpr hb)]
  split_ifs <;> rfl

theorem sfsWriteIdblock_eq (hb : b < s.dBlocks) : sfsWriteIdblock b w s =
    .ok (if s.io 0 then (.ok (), s.idNoted.ioDone.withVolume (s.setDisk b w))
      else (.error Errno.EIO, s.idNoted.ioDone)) :=
  sfsWriteblock_eq (s := s.idNoted) hb

section Rules

variable {α : Type} {ok : Halt → Prop} {Q : Except Errno α → Sfs → Prop}

/-! The rules for reads and writes of blocks : the request fails, or it does not. -/

theorem does_readblock {f : DiskBlock → SfsM α} (hb : b < s.dBlocks)
    (hfail : ¬s.io 0 → Q (.error Errno.EIO) s.ioDone)
    (hdone : s.io 0 → (f (s.disk b)).Does ok s.ioDone Q) : (sfsReadblock b >>= f).Does ok s Q := by
  have hrd := sfsReadblock_eq hb
  split_ifs at hrd with hio
  · exact (Call.does_bind_of_ok hrd).mpr (hdone hio)
  · exact (Call.does_bind_of_error hrd).mpr (hfail hio)

theorem does_writeblock {Q : Except Errno Unit → Sfs → Prop} (hb : b < s.dBlocks)
    (hfail : ¬s.io 0 → Q (.error Errno.EIO) s.ioDone)
    (hdone : s.io 0 → Q (.ok ()) (s.ioDone.withVolume (s.setDisk b w))) :
    (sfsWriteblock b w).Does ok s Q := by
  have hwr := sfsWriteblock_eq (w := w) hb
  split_ifs at hwr with hio
  · exact Call.does_of_eq hwr (hdone hio)
  · exact Call.does_of_eq hwr (hfail hio)

theorem does_writeblock_bind {f : Unit → SfsM α} (hb : b < s.dBlocks)
    (hfail : ¬s.io 0 → Q (.error Errno.EIO) s.ioDone)
    (hdone : s.io 0 → (f ()).Does ok (s.ioDone.withVolume (s.setDisk b w)) Q) :
    (sfsWriteblock b w >>= f).Does ok s Q := by
  have hwr := sfsWriteblock_eq (w := w) hb
  split_ifs at hwr with hio
  · exact (Call.does_bind_of_ok hwr).mpr (hdone hio)
  · exact (Call.does_bind_of_error hwr).mpr (hfail hio)

end Rules

/-- An assertion that holds. -/
theorem kassert_bind {σ α : Type} {p : Prop} [Decidable p] (h : p) (cond : String)
    (f : Unit → Call Halt Errno σ α) (s : σ) :
    (Call.lift (kassert p cond) >>= f) s = f () s := by
  rw [kassert_pos h]
  rfl

/-- A call of the file system leaves the uio alone. -/
theorem onFs_eq {α : Type} {m : SfsM α} {r : Except Errno α} {s' : Sfs}
    (h : m s = .ok (r, s')) (u : Uio) : onFs m (s, u) = .ok (r, (s', u)) := by
  unfold onFs
  rw [h]
  rfl

end

end OS161
