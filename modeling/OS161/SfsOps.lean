import OS161.Sfs
import OS161.Transition

/-!
# SFS : inodes, the directory and the operations

`sfs_inode.c`, `sfs_dir.c`, `sfs_vnops.c` and the part of `sfs_fsops.c` that syncs and mounts
a volume. Names are C strings. A function that hands back a vnode leaves it in the table, with
one more reference.

`SfsOp` are the operations that the VFS layer calls on a volume, with the dispatch on the type
of the vnode, and `SfsOp.run` executes one.
-/

namespace OS161

/-- A C string : bytes without a zero. -/
structure CString where
  bytes : List UInt8
  ne_zero : 0 ∉ bytes
  deriving DecidableEq

/-! ## Directory entries -/

/-- `sfd_ino`. -/
def sfdIno (d : DiskBlock) : ℕ :=
  getWord d 0

/-- `sfd_name` as a string, the last byte of the field being taken as zero. -/
def sfdName (d : DiskBlock) : List UInt8 :=
  ((List.range 59).map fun k => d (4 + k)).takeWhile (· ≠ 0)

/-- An entry with this inode number and name, the rest being zeros. -/
def direntry (ino : ℕ) (name : List UInt8) : DiskBlock :=
  setWord (fun k => if k < 4 then 0 else name.getD (k - 4) 0) 0 ino

/-! ## `sfs_inode.c` -/

/-- `sfs_sync_inode` : write the inode if it is dirty. -/
def sfsSyncInode (ino : ℕ) : SfsM Unit := do
  let sv ← getVnode ino
  if sv.svDirty then do
    sfsWriteblock sv.svIno sv.svI
    onVolume fun v => v.updateVnode ino fun sv => { sv with svDirty := false }
  else pure ()

/-- The end of `sfs_reclaim` : the vnode leaves the table. -/
def removeVnode (ino : ℕ) : SfsM Unit := do
  let s ← Call.get
  match s.loaded ino with
  | none => Call.stop (.panic "sfs: %s: reclaim vnode %u not in vnode pool\n")
  | some sv => do
    onVolume fun v => { v with sfsVnodes := v.sfsVnodes.eraseP fun sv => sv.svIno = ino }
    Call.lift (kassert (sv.vnRefcount = 1) "vn->vn_refcount == 1")

/-- Erase a file to which nothing refers, or leave it as it is. -/
def eraseUnlinked (ino : ℕ) : SfsM Unit := do
  let sv ← getVnode ino
  if sfiLinkcount sv.svI = 0 then sfsItrunc ino 0
  else pure ()

/-- Free the block of the inode of a file to which nothing refers. -/
def discardUnlinked (ino : ℕ) : SfsM Unit := do
  let sv ← getVnode ino
  if sfiLinkcount sv.svI = 0 then sfsBfree sv.svIno
  else pure ()

/-- `sfs_reclaim` : the last reference is gone, and with no link left so is the file. -/
def sfsReclaim (ino : ℕ) : SfsM Unit := do
  let sv ← getVnode ino
  if sv.vnRefcount ≠ 1 then do
    Call.lift (kassert (1 < sv.vnRefcount) "v->vn_refcount>1")
    onVolume fun v => v.updateVnode ino fun sv => { sv with vnRefcount := sv.vnRefcount - 1 }
    Call.fail .EBUSY
  else do
    eraseUnlinked ino
    sfsSyncInode ino
    discardUnlinked ino
    removeVnode ino

/-- `VOP_INCREF`. -/
def vopIncref (ino : ℕ) : SfsM Unit :=
  onVolume fun v => v.updateVnode ino fun sv => { sv with vnRefcount := sv.vnRefcount + 1 }

/-- `VOP_DECREF`. The result of `VOP_RECLAIM` is printed at most. -/
def vopDecref (ino : ℕ) : SfsM Unit := do
  let sv ← getVnode ino
  Call.lift (kassert (0 < sv.vnRefcount) "vn->vn_refcount > 0")
  if 1 < sv.vnRefcount then
    onVolume fun v => v.updateVnode ino fun sv => { sv with vnRefcount := sv.vnRefcount - 1 }
  else do
    let _ ← (sfsReclaim ino).attempt
    pure ()

/-- The search of `sfs_loadvnode` through the table. -/
def findVnode (ino forcetype : ℕ) : List SfsVnode → SfsM Bool
  | [] => pure false
  | sv :: l => do
    let used ← sfsBused sv.svIno
    if used = false then Call.stop (.panic "sfs: %s: Found inode %u in unallocated block\n")
    else if sv.svIno = ino then do
      Call.lift (kassert (forcetype = sfsTypeInval) "forcetype==SFS_TYPE_INVAL")
      vopIncref ino
      pure true
    else findVnode ino forcetype l

/-- The inode as `sfs_loadvnode` sets it up from its block, and `sv_dirty`. -/
def forceType (forcetype : ℕ) (d : DiskBlock) : Except Halt (DiskBlock × Bool) :=
  if forcetype ≠ sfsTypeInval then do
    kassert (sfiType d = sfsTypeInval) "sv->sv_i.sfi_type == SFS_TYPE_INVAL"
    .ok (setSfiType forcetype d, true)
  else .ok (d, false)

/-- The part of `sfs_loadvnode` for an inode that is not in memory. -/
def readVnode (ino forcetype : ℕ) : SfsM Unit := do
  let enough ← kmallocAnswer
  if enough = false then Call.fail .ENOMEM
  else do
    let used ← sfsBused ino
    if used = false then
      Call.stop (.panic "sfs: %s: Tried to load inode %u from unallocated block\n")
    else do
      let d ← sfsReadblock ino
      let r ← Call.lift (forceType forcetype d)
      if sfiType r.1 = sfsTypeFile ∨ sfiType r.1 = sfsTypeDir then do
        -- `vnodearray_add` may have to grow the array.
        let enough ← kmallocAnswer
        if enough = false then Call.fail .ENOMEM
        else onVolume fun v => { v with sfsVnodes := v.sfsVnodes ++ [⟨r.1, ino, r.2, 1⟩] }
      else
        Call.stop (.panic "sfs: %s: loadvnode: Invalid inode type (inode %u, type %u)\n")

/-- `sfs_loadvnode` : the vnode from the table, or from the disk. -/
def sfsLoadvnode (ino forcetype : ℕ) : SfsM Unit := do
  let s ← Call.get
  let found ← findVnode ino forcetype s.sfsVnodes
  if found then pure ()
  else readVnode ino forcetype

/-- `sfs_makeobj`, which hands back the inode number. -/
def sfsMakeobj (type : ℕ) : SfsM ℕ := do
  let ino ← sfsBalloc
  let result ← (sfsLoadvnode ino type).attempt
  match result with
  | .ok _ => pure ino
  | .error e => do
    sfsBfree ino
    Call.fail e

/-- `sfs_getroot`. -/
def sfsGetroot : SfsM ℕ := do
  sfsLoadvnode sfsRootdirIno sfsTypeInval
  let sv ← getVnode sfsRootdirIno
  if sfiType sv.svI ≠ sfsTypeDir then Call.fail .EINVAL
  else pure sfsRootdirIno

/-! ## `sfs_dir.c` -/

/-- `sfs_readdir` : one directory entry. -/
def sfsReaddir (ino slot : ℕ) : SfsM DiskBlock :=
  sfsMetaio ino (slot * 64) zeroBlock 64 .read

/-- `sfs_writedir`. -/
def sfsWritedir (ino slot : ℕ) (sd : DiskBlock) : SfsM Unit := do
  let _ ← sfsMetaio ino (slot * 64) sd 64 .write
  pure ()

/-- `sfs_dir_nentries`. -/
def sfsDirNentries (ino : ℕ) : SfsM ℕ := do
  let sv ← getVnode ino
  Call.lift (kassert (sfiType sv.svI = sfsTypeDir) "sv->sv_i.sfi_type == SFS_TYPE_DIR")
  let size := sfiSize sv.svI
  if size % 64 ≠ 0 then Call.stop (.panic "sfs: %s: directory %u: Invalid size %llu\n")
  else pure (size / 64)

/-- What `sfs_dir_findname` reports : the inode number and slot of the name, if it is there,
and the last empty slot. -/
structure FoundName where
  found : Option (ℕ × ℕ)
  emptyslot : Option ℕ
  deriving DecidableEq, Repr

/-- The loop of `sfs_dir_findname` over the slots. -/
def findnameLoop (ino : ℕ) (name : CString) : List ℕ → FoundName → SfsM FoundName
  | [], r => pure r
  | i :: l, r => do
    let tsd ← sfsReaddir ino i
    if sfdIno tsd = sfsNoino then findnameLoop ino name l { r with emptyslot := some i }
    else if sfdName tsd = name.bytes then do
      Call.lift (kassert (r.found = none) "found==0")
      findnameLoop ino name l { r with found := some (sfdIno tsd, i) }
    else findnameLoop ino name l r

/-- `sfs_dir_findname`. A name that is not there is no error here. -/
def sfsDirFindname (ino : ℕ) (name : CString) : SfsM FoundName := do
  let nentries ← sfsDirNentries ino
  findnameLoop ino name (List.range nentries) ⟨none, none⟩

/-- The slot for a new entry. -/
def slotFor (ino : ℕ) : Option ℕ → SfsM ℕ
  | some slot => pure slot
  | none => sfsDirNentries ino

/-- `sfs_dir_link`, which hands back the slot. -/
def sfsDirLink (dir : ℕ) (name : CString) (ino : ℕ) : SfsM ℕ := do
  let r ← sfsDirFindname dir name
  match r.found with
  | some _ => Call.fail .EEXIST
  | none =>
    if 60 < name.bytes.length + 1 then Call.fail .ENAMETOOLONG
    else do
      let slot ← slotFor dir r.emptyslot
      sfsWritedir dir slot (direntry ino name.bytes)
      pure slot

/-- `sfs_dir_unlink` : clear the entry. -/
def sfsDirUnlink (dir slot : ℕ) : SfsM Unit :=
  sfsWritedir dir slot (direntry sfsNoino [])

/-- `sfs_lookonce`, which hands back the inode number of the vnode and the slot. -/
def sfsLookonce (dir : ℕ) (name : CString) : SfsM (ℕ × ℕ) := do
  let r ← sfsDirFindname dir name
  match r.found with
  | none => Call.fail .ENOENT
  | some (ino, slot) => do
    sfsLoadvnode ino sfsTypeInval
    let sv ← getVnode ino
    if sfiLinkcount sv.svI = 0 then
      Call.stop (.panic "sfs: %s: name %s (inode %u) in dir %u has linkcount 0\n")
    else pure (ino, slot)

/-! ## `sfs_vnops.c` -/

/-- `sfi_linkcount++`, and mark the inode dirty. -/
def addLink (ino : ℕ) : SfsM Unit :=
  setInode ino fun d => setSfiLinkcount (sfiLinkcount d + 1) d

/-- `sfi_linkcount--` of a count that is positive, and mark the inode dirty. -/
def dropLink (ino : ℕ) (cond : String) : SfsM Unit := do
  let sv ← getVnode ino
  Call.lift (kassert (0 < sfiLinkcount sv.svI) cond)
  setInode ino fun d => setSfiLinkcount (sfiLinkcount d - 1) d

/-- `sfs_creat` for a name that does not exist. -/
def creatNew (dir : ℕ) (name : CString) : SfsM ℕ := do
  let ino ← sfsMakeobj sfsTypeFile
  let result ← (sfsDirLink dir name ino).attempt
  match result with
  | .ok _ => do
    addLink ino
    pure ino
  | .error e => do
    vopDecref ino
    Call.fail e

/-- `sfs_creat`, which hands back the inode number of the vnode. -/
def sfsCreat (dir : ℕ) (name : CString) (excl : Bool) : SfsM ℕ := do
  let r ← sfsDirFindname dir name
  match r.found with
  | some (ino, _) =>
    if excl then Call.fail .EEXIST
    else do
      sfsLoadvnode ino sfsTypeInval
      pure ino
  | none => creatNew dir name

/-- `sfs_link`. -/
def sfsLink (dir : ℕ) (name : CString) (file : ℕ) : SfsM Unit := do
  let f ← getVnode file
  if sfiType f.svI = sfsTypeDir then Call.fail .EINVAL
  else do
    let _ ← sfsDirLink dir name f.svIno
    addLink file

/-- `sfs_remove`. -/
def sfsRemove (dir : ℕ) (name : CString) : SfsM Unit := do
  let (victim, slot) ← sfsLookonce dir name
  let result ← (sfsDirUnlink dir slot).attempt
  match result with
  | .ok _ => do
    dropLink victim "victim->sv_i.sfi_linkcount > 0"
    vopDecref victim
  | .error e => do
    vopDecref victim
    Call.fail e

/-- The error recovery of `sfs_rename` : undo what was done already. -/
def renameUndo (dir g1 slot2 : ℕ) (e : Errno) : SfsM Unit := do
  let result2 ← (sfsDirUnlink dir slot2).attempt
  match result2 with
  | .error _ => Call.stop (.panic "sfs: %s: rename: Cannot recover\n")
  | .ok _ => do
    onVolume fun v => v.updateVnode g1 fun sv =>
      { sv with svI := setSfiLinkcount (sfiLinkcount sv.svI - 1) sv.svI }
    vopDecref g1
    Call.fail e

/-- `sfs_rename` after the link under the new name : unlink the old slot. -/
def renameFinish (dir g1 slot1 slot2 : ℕ) : SfsM Unit := do
  addLink g1
  let result ← (sfsDirUnlink dir slot1).attempt
  match result with
  | .error e => renameUndo dir g1 slot2 e
  | .ok _ => do
    dropLink g1 "g1->sv_i.sfi_linkcount>0"
    vopDecref g1

/-- `sfs_rename`, with the recovery if the old name cannot be removed. -/
def sfsRename (d1 : ℕ) (n1 : CString) (d2 : ℕ) (n2 : CString) : SfsM Unit := do
  Call.lift (kassert (d1 = d2) "d1==d2")
  Call.lift (kassert (d1 = sfsRootdirIno) "sv->sv_ino == SFS_ROOTDIR_INO")
  let (g1, slot1) ← sfsLookonce d1 n1
  let sv ← getVnode g1
  Call.lift (kassert (sfiType sv.svI = sfsTypeFile) "g1->sv_i.sfi_type == SFS_TYPE_FILE")
  let result ← (sfsDirLink d1 n2 g1).attempt
  match result with
  | .error e => do
    vopDecref g1
    Call.fail e
  | .ok slot2 => renameFinish d1 g1 slot1 slot2

/-- `sfs_lookup`. -/
def sfsLookup (dir : ℕ) (path : CString) : SfsM ℕ := do
  let (ino, _) ← sfsLookonce dir path
  pure ino

/-! ## `sfs_fsops.c` -/

/-- Block `j` of the data of the bitmap. -/
def freemapBlock (freemap : Bitmap) (j : ℕ) : DiskBlock :=
  fun k => ⟨freemap.v (j * 512 + k)⟩

/-- The bitmap with block `j` of its data replaced. -/
def setFreemapBlock (freemap : Bitmap) (j : ℕ) (data : DiskBlock) : Bitmap :=
  { freemap with v := fun ix => if ix / 512 = j then (data (ix % 512)).toBitVec else freemap.v ix }

/-- The body of the loop of `sfs_freemapio` for writing. -/
def writeFreemapBlock (j : ℕ) : SfsM Unit := do
  let s ← Call.get
  sfsWriteblock (2 + j) (freemapBlock s.sfsFreemap j)

/-- The body of the loop of `sfs_freemapio` for reading. -/
def readFreemapBlock (j : ℕ) : SfsM Unit := do
  let data ← sfsReadblock (2 + j)
  onVolume fun v => { v with sfsFreemap := setFreemapBlock v.sfsFreemap j data }

/-- `sfs_freemapio`, block by block. -/
def sfsFreemapio (rw : UioRw) : SfsM Unit := do
  let s ← Call.get
  let freemapblocks := sfsFreemapblocks s.sbNblocks
  match rw with
  | .read => Call.forEach readFreemapBlock (List.range freemapblocks)
  | .write => Call.forEach writeFreemapBlock (List.range freemapblocks)

/-- `VOP_FSYNC`. -/
def sfsFsync (ino : ℕ) : SfsM Unit :=
  sfsSyncInode ino

/-- `sfs_sync_vnodes`, which does not look at the results. -/
def sfsSyncVnodes : SfsM Unit := do
  let s ← Call.get
  Call.forEach (fun ino => do
    let _ ← (sfsFsync ino).attempt
    pure ()) (s.sfsVnodes.map SfsVnode.svIno)

/-- `sfs_sync_freemap`. -/
def sfsSyncFreemap : SfsM Unit := do
  let s ← Call.get
  if s.sfsFreemapdirty then do
    sfsFreemapio .write
    onVolume fun v => { v with sfsFreemapdirty := false }
  else pure ()

/-- `sfs_sync`. Nothing sets `sfs_superdirty`, so that `sfs_sync_superblock` has nothing to
do. -/
def sfsSync : SfsM Unit := do
  sfsSyncVnodes
  sfsSyncFreemap

/-- The volume that `sfs_domount` sets up before it has read the bitmap. -/
def freshVolume (dBlocks : ℕ) (disk : ℕ → DiskBlock) (nblocks : ℕ) : Volume where
  sbNblocks := nblocks
  sfsFreemap := bitmapCreate (sfsFreemapbits nblocks)
  sfsFreemapdirty := false
  sfsVnodes := []
  dBlocks := dBlocks
  disk := disk

/-- The superblock with the last byte of `sb_volname` cleared : the name takes the bytes `8` to
`39`. -/
def terminateVolname (sb : DiskBlock) : DiskBlock :=
  Function.update sb 39 0

/-- `sfs_domount` of a device of `dBlocks` sectors of 512 bytes, run in a state that holds
the device. The value is the superblock in memory; `sfs_superdirty` is false. -/
def sfsDomountSb : SfsM DiskBlock := do
  let enough ← kmallocAnswer
  if enough = false then Call.fail .ENOMEM
  else do
    let sb ← sfsReadblock 0
    if getWord sb 0 ≠ sfsMagic then Call.fail .EINVAL
    else do
      let sb := terminateVolname sb
      let enough ← kmallocAnswer
      if enough = false then Call.fail .ENOMEM
      else do
        onVolume fun v => freshVolume v.dBlocks v.disk (getWord sb 1)
        sfsFreemapio .read
        pure sb

/-- `sfs_domount`, with the superblock left out. -/
def sfsDomount : SfsM Unit := do
  let _ ← sfsDomountSb
  pure ()

/-! ## The operations -/

/-- The calls of the VFS layer. The vnodes are named by their inodes. -/
inductive SfsOp
  | getroot
  | lookup (dir : ℕ) (name : CString)
  | creat (dir : ℕ) (name : CString) (excl : Bool)
  | link (dir : ℕ) (name : CString) (file : ℕ)
  | remove (dir : ℕ) (name : CString)
  | rename (d1 : ℕ) (n1 : CString) (d2 : ℕ) (n2 : CString)
  | read (file : ℕ) (u : Uio)
  | write (file : ℕ) (u : Uio)
  | truncate (file : ℕ) (len : ℤ)
  | incref (v : ℕ)
  | decref (v : ℕ)
  | fsync (v : ℕ)
  | sync

/-- What an operation hands back : a vnode, or the uio. -/
inductive SfsRet
  | none
  | vnode (ino : ℕ)
  | uio (u : Uio)
  deriving DecidableEq

/-- An operation for directories, or `ENOTDIR`. -/
def onDir (dir : ℕ) {α : Type} (m : SfsM α) : SfsM α := do
  let sv ← getVnode dir
  if sfiType sv.svI = sfsTypeDir then m else Call.fail .ENOTDIR

/-- An operation for files, or `EISDIR`. -/
def onFile (file : ℕ) {α : Type} (m : SfsM α) : SfsM α := do
  let sv ← getVnode file
  if sfiType sv.svI = sfsTypeDir then Call.fail .EISDIR else m

/-- `sfs_read` and `sfs_write`. The uio is handed back with an error, too. -/
def sfsRdwr (file : ℕ) (rw : UioRw) (u : Uio) : SfsM (Except Errno Unit × Uio) := do
  Call.lift (kassert (u.uioRw = rw) "uio->uio_rw")
  fun s => sfsIo file (s, u) >>= fun r => .ok (.ok (r.1, r.2.2), r.2.1)

/-- The result of an operation : an error code or `0`, and what is handed back. -/
abbrev SfsResult : Type :=
  Except Errno Unit × SfsRet

/-- A call that hands back nothing with an error. -/
def returns {α : Type} (m : SfsM α) (ret : α → SfsRet) : SfsM SfsResult := do
  let result ← m.attempt
  match result with
  | .ok a => pure (.ok (), ret a)
  | .error e => pure (.error e, .none)

/-- A transfer hands back the uio. -/
def returnsUio (m : SfsM (Except Errno Unit × Uio)) : SfsM SfsResult := do
  let result ← m.attempt
  match result with
  | .ok (r, u) => pure (r, .uio u)
  | .error e => pure (.error e, .none)

/-- One operation. -/
def SfsOp.run : SfsOp → SfsM SfsResult
  | .getroot => returns sfsGetroot .vnode
  | .lookup dir name => returns (onDir dir (sfsLookup dir name)) .vnode
  | .creat dir name excl => returns (onDir dir (sfsCreat dir name excl)) .vnode
  | .link dir name file => returns (onDir dir (sfsLink dir name file)) fun _ => .none
  | .remove dir name => returns (onDir dir (sfsRemove dir name)) fun _ => .none
  | .rename d1 n1 d2 n2 => returns (onDir d1 (sfsRename d1 n1 d2 n2)) fun _ => .none
  | .read file u => returnsUio (onFile file (sfsRdwr file .read u))
  | .write file u => returnsUio (onFile file (sfsRdwr file .write u))
  | .truncate file len => returns (onFile file (sfsItrunc file len)) fun _ => .none
  | .incref v => returns (vopIncref v) fun _ => .none
  | .decref v => returns (vopDecref v) fun _ => .none
  | .fsync v => returns (sfsFsync v) fun _ => .none
  | .sync => returns sfsSync fun _ => .none

end OS161
