import OS161.SfsBmap

/-!
# What `sfs_sync` reports

`sfs_sync` writes the dirty inodes, the freemap and the superblock, in this order. The results
for the inodes are not looked at, so that it returns `0` although an inode could not be written.
And what is not marked dirty is not written : `sfs_domount` changes the superblock in memory and
leaves `sfs_superdirty` false (`terminateVolname_eq_iff`).

`Mounted.synced` is the disk after the writes that the device does. `sync_honest_iff` : when
`sfs_sync` returns `0` everything in memory is on disk, exactly if it is what `Mounted.synced`
has, or a write fails whose result is looked at. With the inodes outside the superblock and the
freemap this comes to three cases (`Mounted.settled_iff`). `sfs_unmount` refuses to go on while
there are vnodes in memory.

Here the state has the superblock, too.
-/

namespace OS161

open Sfs Volume Function

/-- A mounted volume with its superblock in memory. -/
structure Mounted where
  fs : Sfs
  sfsSb : DiskBlock
  sfsSuperdirty : Bool

/-- A function that does not touch the superblock. -/
def onMounted {α : Type} (m : SfsM α) : Call Halt Errno Mounted α :=
  fun p => m p.fs >>= fun r => .ok (r.1, { p with fs := r.2 })

/-- `sfs_sync_superblock`. -/
def sfsSyncSuperblock : Call Halt Errno Mounted Unit := do
  let p ← Call.get
  if p.sfsSuperdirty then do
    onMounted (sfsWriteblock 0 p.sfsSb)
    Call.modify fun p => { p with sfsSuperdirty := false }
  else pure ()

/-- `sfs_sync` with the superblock. -/
def sfsSyncMounted : Call Halt Errno Mounted Unit := do
  onMounted sfsSync
  sfsSyncSuperblock

variable {ok : Halt → Prop} {s s' : Sfs} {i : ℕ} {sv : SfsVnode}

/-- A write to a block that may be outside the device. -/
theorem writeblock_does {b : ℕ} {w : DiskBlock} {Q : Except Errno Unit → Sfs → Prop}
    (hout : s.dBlocks ≤ b → ok ioPanic)
    (hfail : b < s.dBlocks → s.io 0 = false → Q (.error Errno.EIO) s.ioDone)
    (hdone : b < s.dBlocks → s.io 0 = true →
      Q (.ok ()) (s.ioDone.withVolume (s.setDisk b w))) : (sfsWriteblock b w).Does ok s Q := by
  by_cases hb : b < s.dBlocks
  · exact does_writeblock hb (fun hio => hfail hb (Bool.eq_false_iff.mpr hio)) (hdone hb)
  · have hstop : sfsWriteblock b w s = .error ioPanic := if_pos (Nat.not_lt.mp hb)
    unfold Call.Does
    rw [hstop]
    exact hout (Nat.not_lt.mp hb)

/-! ## The inodes -/

/-- The vnodes that `sfs_sync_vnodes` has to write, in this order. -/
def dirtyVnodes (l : List SfsVnode) : List SfsVnode :=
  l.filter SfsVnode.svDirty

/-- The disk when the inodes of the vnodes `l` were to be written, with the answers `io`. -/
def inodesWritten : List SfsVnode → (ℕ → Bool) → (ℕ → DiskBlock) → ℕ → DiskBlock
  | [], _, disk => disk
  | sv :: l, io, disk => inodesWritten l (fun n => io (n + 1))
      (if io 0 then update disk sv.svIno sv.svI else disk)

theorem inodesWritten_of_ne {b : ℕ} : ∀ (l : List SfsVnode) (io : ℕ → Bool)
    (disk : ℕ → DiskBlock), (∀ sv ∈ l, sv.svIno ≠ b) → inodesWritten l io disk b = disk b
  | [], _, _, _ => rfl
  | sv :: l, io, disk, h => by
    rw [inodesWritten, inodesWritten_of_ne l _ _ fun sv' hsv => h sv' (List.mem_cons_of_mem _ hsv)]
    split_ifs
    · exact update_of_ne (h sv List.mem_cons_self).symm _ _
    · rfl

theorem inodesWritten_getElem : ∀ (l : List SfsVnode) (io : ℕ → Bool) (disk : ℕ → DiskBlock)
    (k : ℕ), (l.map SfsVnode.svIno).Nodup → l[k]? = some sv →
    inodesWritten l io disk sv.svIno = if io k then sv.svI else disk sv.svIno
  | [], _, _, _, _, hk => by cases hk
  | sv₀ :: l, io, disk, k, hn, hk => by
    obtain ⟨hnot, hn⟩ := List.nodup_cons.mp hn
    have hne : ∀ sv' ∈ l, sv'.svIno ≠ sv₀.svIno := fun sv' h he =>
      hnot (he ▸ List.mem_map_of_mem h)
    cases k with
    | zero =>
      obtain rfl := Option.some.inj hk
      rw [inodesWritten, inodesWritten_of_ne l _ _ hne]
      split_ifs
      · exact update_self ..
      · rfl
    | succ k =>
      have hk' : l[k]? = some sv := by simpa using hk
      have hne' := hne sv (List.mem_of_getElem? hk')
      rw [inodesWritten, inodesWritten_getElem l _ _ k hn hk',
        apply_ite fun disk : ℕ → DiskBlock => disk sv.svIno, update_of_ne hne', ite_self]

/-- What is left behind when the inodes of the vnodes `l` were to be written. -/
structure VnodesSynced (l : List SfsVnode) (s s' : Sfs) : Prop where
  inRange : ∀ sv ∈ l, sv.svIno < s.dBlocks
  io : ∀ n, s'.io n = s.io (l.length + n)
  disk : s'.disk = inodesWritten l s.io s.disk
  inos : s'.sfsVnodes.map SfsVnode.svIno = s.sfsVnodes.map SfsVnode.svIno
  inodes : ∀ j, (s'.loaded j).map SfsVnode.svI = (s.loaded j).map SfsVnode.svI
  nblocks : s'.sbNblocks = s.sbNblocks
  freemap : s'.sfsFreemap = s.sfsFreemap
  freemapdirty : s'.sfsFreemapdirty = s.sfsFreemapdirty
  device : s'.dBlocks = s.dBlocks

/-- The body of the loop of `sfs_sync_vnodes`. -/
def fsyncQuiet (ino : ℕ) : SfsM Unit := do
  let _ ← (sfsFsync ino).attempt
  pure ()

/-- The state after `sfs_fsync` of a dirty inode. -/
def syncedInode (s : Sfs) (sv : SfsVnode) : Sfs :=
  if s.io 0 then s.ioDone.withVolume ((s.setDisk sv.svIno sv.svI).updateVnode sv.svIno
    fun sv => { sv with svDirty := false })
  else s.ioDone

theorem fsyncQuiet_dirty (hi : s.loaded sv.svIno = some sv) (hd : sv.svDirty = true)
    (hout : s.dBlocks ≤ sv.svIno → ok ioPanic) :
    (fsyncQuiet sv.svIno).Does ok s fun r s' =>
      r = .ok () ∧ sv.svIno < s.dBlocks ∧ s' = syncedInode s sv := by
  unfold fsyncQuiet sfsFsync sfsSyncInode
  refine Call.Does.attempt_bind (P := fun _ s' => sv.svIno < s.dBlocks ∧ s' = syncedInode s sv)
    ?_ fun _ _ h => ⟨rfl, h⟩
  rw [Call.does_bind_of_ok (getVnode_eq hi), if_pos hd]
  by_cases hb : sv.svIno < s.dBlocks
  · refine does_writeblock_bind hb (fun hio => ⟨hb, ?_⟩) fun hio => ⟨hb, ?_⟩
    · exact (if_neg hio).symm
    · exact (if_pos hio).symm
  · refine Call.Does.bind (P := fun _ _ => False) ?_ (fun _ _ h => h.elim) fun _ _ h => h.elim
    exact writeblock_does hout (fun h _ => hb h) fun h _ => hb h

theorem fsyncQuiet_clean (hi : s.loaded sv.svIno = some sv) (hd : sv.svDirty = false) :
    fsyncQuiet sv.svIno s = .ok (.ok (), s) := by
  have hsync : sfsFsync sv.svIno s = .ok (.ok (), s) := by
    unfold sfsFsync sfsSyncInode
    rw [Call.bind_of_ok (getVnode_eq hi), if_neg (by simp [hd])]
    rfl
  unfold fsyncQuiet
  rw [Call.bind_of_ok (Call.attempt_of_ok hsync)]
  rfl

section syncedInode

theorem io_syncedInode (n : ℕ) : (syncedInode s sv).io n = s.io (n + 1) := by
  unfold syncedInode
  split_ifs <;> rfl

theorem disk_syncedInode : (syncedInode s sv).disk =
    if s.io 0 then update s.disk sv.svIno sv.svI else s.disk := by
  unfold syncedInode
  split_ifs <;> rfl

theorem loaded_syncedInode_ne {j : ℕ} (hj : j ≠ sv.svIno) :
    (syncedInode s sv).loaded j = s.loaded j := by
  unfold syncedInode
  split_ifs
  · exact loaded_updateVnode_ne (fun _ => rfl) hj
  · rfl

theorem inode_syncedInode (j : ℕ) :
    ((syncedInode s sv).loaded j).map SfsVnode.svI = (s.loaded j).map SfsVnode.svI := by
  unfold syncedInode
  split_ifs
  · change ((s.updateVnode sv.svIno fun sv => { sv with svDirty := false }).loaded j).map _ = _
    have h := loaded_updateVnode (v := s.toVolume)
      (f := fun sv : SfsVnode => { sv with svDirty := false }) (fun _ => rfl) sv.svIno j
    rw [h]
    split_ifs
    · rw [Option.map_map]
      rfl
    · rfl
  · rfl

theorem inos_syncedInode : (syncedInode s sv).sfsVnodes.map SfsVnode.svIno =
    s.sfsVnodes.map SfsVnode.svIno := by
  unfold syncedInode
  split_ifs
  · exact map_svIno_updateVnode fun _ => rfl
  · rfl

theorem same_syncedInode : (syncedInode s sv).sbNblocks = s.sbNblocks ∧
    (syncedInode s sv).sfsFreemap = s.sfsFreemap ∧
    (syncedInode s sv).sfsFreemapdirty = s.sfsFreemapdirty ∧
    (syncedInode s sv).dBlocks = s.dBlocks := by
  unfold syncedInode
  split_ifs <;> exact ⟨rfl, rfl, rfl, rfl⟩

end syncedInode

/-- The loop of `sfs_sync_vnodes` : each dirty inode is written if the device does its part. It
stops only at an inode that is not on the device. -/
theorem fsyncAll_does : ∀ (l : List SfsVnode) (s : Sfs), (l.map SfsVnode.svIno).Nodup →
    (∀ sv ∈ l, s.loaded sv.svIno = some sv) →
    ((∃ sv ∈ dirtyVnodes l, s.dBlocks ≤ sv.svIno) → ok ioPanic) →
    (Call.forEach fsyncQuiet (l.map SfsVnode.svIno)).Does ok s fun r s' =>
      r = .ok () ∧ VnodesSynced (dirtyVnodes l) s s'
  | [], s, _, _, _ => ⟨rfl, by simp [dirtyVnodes], fun n => congrArg s.io (Nat.zero_add n).symm,
      rfl, rfl, fun _ => rfl, rfl, rfl, rfl, rfl⟩
  | sv :: l, s, hn, hl, hout => by
    obtain ⟨hnot, hn⟩ := List.nodup_cons.mp hn
    have hi := hl sv List.mem_cons_self
    have hrest := fun sv' h => hl sv' (List.mem_cons_of_mem sv h)
    rw [List.map_cons]
    unfold Call.forEach
    cases hd : sv.svDirty with
    | false =>
      have hdirty : dirtyVnodes (sv :: l) = dirtyVnodes l := List.filter_cons_of_neg (by simp [hd])
      rw [hdirty] at hout ⊢
      rw [Call.does_bind_of_ok (fsyncQuiet_clean hi hd)]
      exact fsyncAll_does l s hn hrest hout
    | true =>
      have hdirty : dirtyVnodes (sv :: l) = sv :: dirtyVnodes l := List.filter_cons_of_pos hd
      rw [hdirty] at hout ⊢
      refine (fsyncQuiet_dirty hi hd fun h => hout ⟨sv, List.mem_cons_self, h⟩).bind
        (fun e s' h => absurd h.1 (by simp)) ?_
      rintro _ s₁ ⟨-, hlt, rfl⟩
      obtain ⟨hnb, hmap, hmd, hdv⟩ := @same_syncedInode s sv
      refine (fsyncAll_does l (syncedInode s sv) hn (fun sv' h => ?_)
        fun ⟨sv', h, hle⟩ => ?_).mono ?_
      · rw [loaded_syncedInode_ne fun he => hnot (he ▸ List.mem_map_of_mem h)]
        exact hrest sv' h
      · exact hout ⟨sv', List.mem_cons_of_mem _ h, hdv ▸ hle⟩
      rintro r s' ⟨rfl, h⟩
      refine ⟨rfl, ?_, fun n => ?_, ?_, h.inos.trans inos_syncedInode,
        fun j => (h.inodes j).trans (inode_syncedInode j), h.nblocks.trans hnb,
        h.freemap.trans hmap, h.freemapdirty.trans hmd, h.device.trans hdv⟩
      · exact List.forall_mem_cons.mpr ⟨hlt, fun sv' hsv => hdv ▸ h.inRange sv' hsv⟩
      · rw [h.io, io_syncedInode, List.length_cons]
        congr 1
        omega
      · rw [h.disk, inodesWritten, disk_syncedInode]
        exact congrArg (inodesWritten _ · _) (funext io_syncedInode)

/-- `sfs_sync_vnodes`. -/
theorem sfsSyncVnodes_does (hn : (s.sfsVnodes.map SfsVnode.svIno).Nodup)
    (hout : (∃ sv ∈ dirtyVnodes s.sfsVnodes, s.dBlocks ≤ sv.svIno) → ok ioPanic) :
    sfsSyncVnodes.Does ok s fun r s' =>
      r = .ok () ∧ VnodesSynced (dirtyVnodes s.sfsVnodes) s s' :=
  fsyncAll_does s.sfsVnodes s hn (fun _ h => loaded_of_mem hn h) hout

/-- The inodes in memory are the same. -/
theorem VnodesSynced.forall_iff {l : List SfsVnode} (h : VnodesSynced l s s')
    (hn : (s.sfsVnodes.map SfsVnode.svIno).Nodup) (Q : ℕ → DiskBlock → Prop) :
    (∀ sv ∈ s'.sfsVnodes, Q sv.svIno sv.svI) ↔ ∀ sv ∈ s.sfsVnodes, Q sv.svIno sv.svI := by
  have hn' : (s'.sfsVnodes.map SfsVnode.svIno).Nodup := h.inos ▸ hn
  constructor
  · intro hall sv hsv
    have hi := h.inodes sv.svIno
    rw [loaded_of_mem hn hsv] at hi
    obtain ⟨sv', hl, hsvI⟩ := Option.map_eq_some_iff.mp hi
    obtain ⟨hmem, hino⟩ := loaded_eq_some hl
    rw [← hino, ← hsvI]
    exact hall sv' hmem
  · intro hall sv hsv
    have hi := h.inodes sv.svIno
    rw [loaded_of_mem hn' hsv] at hi
    obtain ⟨sv', hl, hsvI⟩ := Option.map_eq_some_iff.mp hi.symm
    obtain ⟨hmem, hino⟩ := loaded_eq_some hl
    rw [← hino, ← hsvI]
    exact hall sv' hmem

/-! ## The freemap -/

/-- The disk when the first `n` blocks of the freemap have been written. -/
def freemapWritten (n : ℕ) (freemap : Bitmap) (disk : ℕ → DiskBlock) (b : ℕ) : DiskBlock :=
  if 2 ≤ b ∧ b < 2 + n then freemapBlock freemap (b - 2) else disk b

theorem freemapWritten_self {n j : ℕ} {freemap : Bitmap} {disk : ℕ → DiskBlock} (hj : j < n) :
    freemapWritten n freemap disk (2 + j) = freemapBlock freemap j := by
  unfold freemapWritten
  rw [if_pos (by omega), Nat.add_sub_cancel_left]

theorem freemapWritten_of_ne {n b : ℕ} {freemap : Bitmap} {disk : ℕ → DiskBlock}
    (hb : ∀ j < n, b ≠ 2 + j) : freemapWritten n freemap disk b = disk b := by
  refine if_neg fun h => hb (b - 2) ?_ ?_
  · omega
  · omega

/-- The freemap has been written, the first `n` blocks of it. -/
structure FreemapWritten (n : ℕ) (s s' : Sfs) : Prop where
  inRange : ∀ j < n, 2 + j < s.dBlocks
  io : ∀ j, s'.io j = s.io (n + j)
  answers : ∀ j < n, s.io j = true
  disk : s'.disk = freemapWritten n s.sfsFreemap s.disk
  vnodes : s'.sfsVnodes = s.sfsVnodes
  nblocks : s'.sbNblocks = s.sbNblocks
  freemap : s'.sfsFreemap = s.sfsFreemap
  device : s'.dBlocks = s.dBlocks

theorem FreemapWritten.refl (s : Sfs) : FreemapWritten 0 s s where
  inRange j hj := absurd hj (Nat.not_lt_zero j)
  io j := congrArg s.io (Nat.zero_add j).symm
  answers j hj := absurd hj (Nat.not_lt_zero j)
  disk := funext fun _ => (freemapWritten_of_ne fun j hj => absurd hj (Nat.not_lt_zero j)).symm
  vnodes := rfl
  nblocks := rfl
  freemap := rfl
  device := rfl

/-- A write of the first `n` blocks of the freemap fails, or is not on the device. -/
def FreemapFails (n : ℕ) (s : Sfs) : Prop :=
  ∃ j < n, s.dBlocks ≤ 2 + j ∨ s.io j = false

theorem FreemapWritten.not_fails {n : ℕ} (h : FreemapWritten n s s') : ¬FreemapFails n s := by
  rintro ⟨j, hj, hout | hio⟩
  · exact absurd (h.inRange j hj) (Nat.not_lt.mpr hout)
  · rw [h.answers j hj] at hio
    cases hio

theorem sfsFreemapio_write_does
    (hout : FreemapFails (sfsFreemapblocks s.sbNblocks) s → ok ioPanic) :
    (sfsFreemapio .write).Does ok s fun r s' => match r with
      | .ok _ => FreemapWritten (sfsFreemapblocks s.sbNblocks) s s'
      | .error _ => FreemapFails (sfsFreemapblocks s.sbNblocks) s := by
  unfold sfsFreemapio
  rw [Call.does_get_bind]
  refine Call.Does.forRange (I := fun j s' => FreemapWritten j s s') ?_ (fun _ h => h) (.refl s)
  intro j hj s₁ h
  have hio : s₁.io 0 = s.io j := h.io 0
  unfold writeFreemapBlock
  rw [Call.does_get_bind]
  refine writeblock_does (fun hle => hout ⟨j, hj, Or.inl (h.device ▸ hle)⟩)
    (fun _ hans => ⟨j, hj, Or.inr (hio ▸ hans)⟩) fun hlt hans =>
    ⟨fun k hk => ?_, fun n => ?_, fun k hk => ?_, ?_, h.vnodes, h.nblocks, h.freemap, h.device⟩
  · rcases Nat.lt_succ_iff_lt_or_eq.mp hk with hk | rfl
    · exact h.inRange k hk
    · exact h.device ▸ hlt
  · rw [show j + 1 + n = j + (n + 1) by omega]
    exact h.io (n + 1)
  · rcases Nat.lt_succ_iff_lt_or_eq.mp hk with hk | rfl
    · exact h.answers k hk
    · exact hio ▸ hans
  · funext b
    change update s₁.disk (2 + j) (freemapBlock s₁.sfsFreemap j) b = _
    rw [h.disk, h.freemap]
    by_cases hb : b = 2 + j
    · rw [hb, update_self, freemapWritten_self (Nat.lt_succ_self j)]
    · rw [update_of_ne hb]
      exact if_congr (by omega) rfl rfl

/-- The number of blocks that `sfs_sync_freemap` writes. -/
def freemapWrites (s : Sfs) : ℕ :=
  if s.sfsFreemapdirty then sfsFreemapblocks s.sbNblocks else 0

/-- The freemap is on disk. -/
def FreemapOnDisk (s : Sfs) : Prop :=
  ∀ j < sfsFreemapblocks s.sbNblocks, ∀ k < 512,
    s.disk (2 + j) k = freemapBlock s.sfsFreemap j k

theorem sfsSyncFreemap_does (hout : FreemapFails (freemapWrites s) s → ok ioPanic) :
    sfsSyncFreemap.Does ok s fun r s' => match r with
      | .ok _ => FreemapWritten (freemapWrites s) s s'
      | .error _ => FreemapFails (freemapWrites s) s := by
  unfold sfsSyncFreemap
  rw [Call.does_get_bind]
  split_ifs with hd
  · have hn : freemapWrites s = sfsFreemapblocks s.sbNblocks := if_pos hd
    rw [hn] at hout ⊢
    refine (sfsFreemapio_write_does hout).bind (fun e s' h => h) fun _ s' h => ?_
    exact ⟨h.inRange, h.io, h.answers, h.disk, h.vnodes, h.nblocks, h.freemap, h.device⟩
  · rw [show freemapWrites s = 0 from if_neg hd]
    exact FreemapWritten.refl s

/-! ## The superblock, and all together -/

theorem onMounted_does {α : Type} {f : SfsM α} {m : Mounted} {Q : Except Errno α → Sfs → Prop}
    (h : f.Does ok m.fs Q) :
    (onMounted f).Does ok m fun r m' => Q r m'.fs ∧ m' = { m with fs := m'.fs } :=
  Meets.bind h fun _ hr => ⟨hr, rfl⟩

namespace Mounted

variable {m m' : Mounted}

/-- Everything in memory is on disk. -/
def OnDisk (m : Mounted) : Prop :=
  (∀ sv ∈ m.fs.sfsVnodes, sv.svI = m.fs.disk sv.svIno) ∧ FreemapOnDisk m.fs ∧
    m.sfsSb = m.fs.disk 0

/-- The disk after the writes of `sfs_sync` that the device does, if none fails whose result is
looked at. -/
def synced (m : Mounted) : ℕ → DiskBlock :=
  let disk := freemapWritten (freemapWrites m.fs) m.fs.sfsFreemap
    (inodesWritten (dirtyVnodes m.fs.sfsVnodes) m.fs.io m.fs.disk)
  if m.sfsSuperdirty then update disk 0 m.sfsSb else disk

/-- What is in memory before `sfs_sync` is on the disk that it leaves. -/
structure Settled (m : Mounted) : Prop where
  inodes : ∀ sv ∈ m.fs.sfsVnodes, sv.svI = m.synced sv.svIno
  freemap : ∀ j < sfsFreemapblocks m.fs.sbNblocks, ∀ k < 512,
    m.synced (2 + j) k = freemapBlock m.fs.sfsFreemap j k
  super : m.sfsSb = m.synced 0

/-- `sfs_sync` does not return `0` : a dirty inode, or a block to write after the inodes, is not
on the device, or a write after those of the inodes fails. -/
def SyncFails (m : Mounted) : Prop :=
  (∃ sv ∈ dirtyVnodes m.fs.sfsVnodes, m.fs.dBlocks ≤ sv.svIno) ∨
  (∃ j < freemapWrites m.fs, m.fs.dBlocks ≤ 2 + j ∨
    m.fs.io ((dirtyVnodes m.fs.sfsVnodes).length + j) = false) ∨
  m.sfsSuperdirty = true ∧ (m.fs.dBlocks ≤ 0 ∨
    m.fs.io ((dirtyVnodes m.fs.sfsVnodes).length + freemapWrites m.fs) = false)

theorem syncSuperblock_does
    (hout : m.sfsSuperdirty = true → m.fs.dBlocks ≤ 0 → ok ioPanic) :
    sfsSyncSuperblock.Does ok m fun r m' => match r with
      | .ok _ => ¬(m.sfsSuperdirty = true ∧ (m.fs.dBlocks ≤ 0 ∨ m.fs.io 0 = false)) ∧
          m'.fs.disk = (if m.sfsSuperdirty then update m.fs.disk 0 m.sfsSb else m.fs.disk) ∧
          m'.sfsSb = m.sfsSb ∧ m'.fs.sfsVnodes = m.fs.sfsVnodes ∧
          m'.fs.sbNblocks = m.fs.sbNblocks ∧ m'.fs.sfsFreemap = m.fs.sfsFreemap
      | .error _ => m.sfsSuperdirty = true ∧ m.fs.io 0 = false := by
  unfold sfsSyncSuperblock
  rw [Call.does_get_bind]
  split_ifs with hd
  · have hwr : (sfsWriteblock 0 m.sfsSb).Does ok m.fs fun r s' => match r with
        | .ok _ => ¬(m.fs.dBlocks ≤ 0 ∨ m.fs.io 0 = false) ∧
            s' = m.fs.ioDone.withVolume (m.fs.setDisk 0 m.sfsSb)
        | .error _ => m.fs.io 0 = false :=
      writeblock_does (hout hd) (fun _ hio => hio) fun hlt hio => ⟨by simp [hio]; omega, rfl⟩
    refine (onMounted_does hwr).bind (fun e m' hio => ⟨hd, hio.1⟩) ?_
    rintro _ m' ⟨⟨hio, hs⟩, hm⟩
    rw [hm, hs]
    exact ⟨fun h => hio h.2, rfl, rfl, rfl, rfl, rfl⟩
  · exact ⟨fun h => hd h.1, rfl, rfl, rfl, rfl, rfl⟩

/-- `sfs_sync` returns `0` exactly if no write fails whose result is looked at, and then
everything is on disk exactly if it is settled. -/
theorem sync_does (hn : (m.fs.sfsVnodes.map SfsVnode.svIno).Nodup) :
    sfsSyncMounted.Does (fun _ => m.SyncFails) m fun r m' => match r with
      | .ok _ => ¬m.SyncFails ∧ (m'.OnDisk ↔ m.Settled) ∧
          m'.fs.sfsVnodes.map SfsVnode.svIno = m.fs.sfsVnodes.map SfsVnode.svIno ∧
          m'.fs.sfsFreemap = m.fs.sfsFreemap
      | .error _ => m.SyncFails := by
  have hsync : sfsSync.Does (fun _ => m.SyncFails) m.fs fun r s₂ => match r with
      | .ok _ => ∃ s₁, VnodesSynced (dirtyVnodes m.fs.sfsVnodes) m.fs s₁ ∧
          FreemapWritten (freemapWrites m.fs) s₁ s₂
      | .error _ => m.SyncFails := by
    refine (sfsSyncVnodes_does hn Or.inl).bind (fun _ _ h => absurd h.1 (by simp)) ?_
    rintro _ s₁ ⟨-, h₁⟩
    have hfw : freemapWrites s₁ = freemapWrites m.fs := by
      unfold freemapWrites
      rw [h₁.freemapdirty, h₁.nblocks]
    have hfails : FreemapFails (freemapWrites s₁) s₁ → m.SyncFails := by
      rintro ⟨j, hj, hor⟩
      rw [hfw] at hj
      rw [h₁.device, h₁.io] at hor
      exact Or.inr (Or.inl ⟨j, hj, hor⟩)
    refine (sfsSyncFreemap_does hfails).mono fun r s₂ hr => ?_
    cases r with
    | ok _ => exact ⟨s₁, h₁, hfw ▸ hr⟩
    | error e => exact hfails hr
  refine (onMounted_does hsync).bind (fun e m' he => he.1) ?_
  rintro _ m₂ ⟨⟨s₁, h₁, h₂⟩, hm₂⟩
  have hsb : m₂.sfsSb = m.sfsSb := by rw [hm₂]
  have hsd : m₂.sfsSuperdirty = m.sfsSuperdirty := by rw [hm₂]
  have hio : m₂.fs.io 0 = m.fs.io ((dirtyVnodes m.fs.sfsVnodes).length + freemapWrites m.fs) := by
    rw [h₂.io, h₁.io, Nat.add_zero]
  have hdv : m₂.fs.dBlocks = m.fs.dBlocks := h₂.device.trans h₁.device
  refine (syncSuperblock_does fun hd hle => ?_).mono fun r m' hr => ?_
  · exact Or.inr (Or.inr ⟨hsd ▸ hd, Or.inl (hdv ▸ hle)⟩)
  cases r with
  | error e => exact Or.inr (Or.inr ⟨hsd ▸ hr.1, Or.inr (hio ▸ hr.2)⟩)
  | ok _ =>
    obtain ⟨hno, hdisk, hsb', hvn, hnb, hfm⟩ := hr
    rw [hsd, hdv, hio] at hno
    have hfm' : m'.fs.sfsFreemap = m.fs.sfsFreemap := by rw [hfm, h₂.freemap, h₁.freemap]
    have hnb' : m'.fs.sbNblocks = m.fs.sbNblocks := by rw [hnb, h₂.nblocks, h₁.nblocks]
    have hdisk' : m'.fs.disk = m.synced := by
      rw [hdisk, hsd, hsb, h₂.disk, h₁.disk, h₁.freemap]
      rfl
    refine ⟨?_, ?_, by rw [hvn, h₂.vnodes, h₁.inos], hfm'⟩
    · rintro (⟨sv, hsv, hle⟩ | hmap | hsuper)
      · exact absurd (h₁.inRange sv hsv) (Nat.not_lt.mpr hle)
      · obtain ⟨j, hj, hor⟩ := hmap
        refine h₂.not_fails ⟨j, hj, ?_⟩
        rwa [h₁.device, h₁.io]
      · exact hno hsuper
    · have hinodes : (∀ sv ∈ m'.fs.sfsVnodes, sv.svI = m'.fs.disk sv.svIno) ↔
          ∀ sv ∈ m.fs.sfsVnodes, sv.svI = m.synced sv.svIno := by
        rw [hvn, h₂.vnodes, hdisk']
        exact h₁.forall_iff hn fun ino d => d = m.synced ino
      unfold OnDisk FreemapOnDisk
      rw [hinodes, hfm', hnb', hsb', hsb, hdisk']
      exact ⟨fun h => ⟨h.1, h.2.1, h.2.2⟩, fun h => ⟨h.inodes, h.freemap, h.super⟩⟩

/-! ## Inodes with blocks of their own -/

/-- Each write of a dirty inode succeeds, or the block is the inode already. -/
def InodesWritten (m : Mounted) : Prop :=
  ∀ k sv, (dirtyVnodes m.fs.sfsVnodes)[k]? = some sv →
    m.fs.io k = true ∨ sv.svI = m.fs.disk sv.svIno

/-- What is not dirty is on disk. -/
structure CleanOnDisk (m : Mounted) : Prop where
  inodes : ∀ sv ∈ m.fs.sfsVnodes, sv.svDirty = false → sv.svI = m.fs.disk sv.svIno
  freemap : m.fs.sfsFreemapdirty = false → FreemapOnDisk m.fs
  super : m.sfsSuperdirty = false → m.sfsSb = m.fs.disk 0

/-- Each inode in memory has one vnode, and a block that is neither the superblock nor of the
freemap. -/
structure Apart (m : Mounted) : Prop where
  nodup : (m.fs.sfsVnodes.map SfsVnode.svIno).Nodup
  apart : ∀ sv ∈ m.fs.sfsVnodes, sv.svIno ≠ 0 ∧
    ∀ j < sfsFreemapblocks m.fs.sbNblocks, sv.svIno ≠ 2 + j

theorem freemapWrites_le (s : Sfs) : freemapWrites s ≤ sfsFreemapblocks s.sbNblocks := by
  unfold freemapWrites
  split_ifs
  · exact le_rfl
  · exact Nat.zero_le _

/-- The writes of the inodes leave the other blocks alone. -/
theorem Apart.inodesWritten_eq (h : m.Apart) {b : ℕ}
    (hb : b = 0 ∨ ∃ j < sfsFreemapblocks m.fs.sbNblocks, b = 2 + j) :
    inodesWritten (dirtyVnodes m.fs.sfsVnodes) m.fs.io m.fs.disk b = m.fs.disk b := by
  refine inodesWritten_of_ne _ _ _ fun sv hsv => ?_
  obtain ⟨h0, hj⟩ := h.apart sv (List.mem_of_mem_filter hsv)
  rcases hb with rfl | ⟨j, hlt, rfl⟩
  · exact h0
  · exact hj j hlt

theorem synced_of_ne {b : ℕ} (hb : b ≠ 0) : m.synced b = freemapWritten (freemapWrites m.fs)
    m.fs.sfsFreemap (inodesWritten (dirtyVnodes m.fs.sfsVnodes) m.fs.io m.fs.disk) b := by
  unfold synced
  split_ifs
  · exact update_of_ne hb _ _
  · rfl

theorem Apart.synced_inode (h : m.Apart) {sv : SfsVnode} (hsv : sv ∈ m.fs.sfsVnodes) :
    m.synced sv.svIno =
      inodesWritten (dirtyVnodes m.fs.sfsVnodes) m.fs.io m.fs.disk sv.svIno := by
  obtain ⟨h0, hj⟩ := h.apart sv hsv
  rw [synced_of_ne h0]
  exact freemapWritten_of_ne fun j hlt => hj j (hlt.trans_le (freemapWrites_le m.fs))

theorem Apart.synced_freemap (h : m.Apart) {j : ℕ} (hj : j < sfsFreemapblocks m.fs.sbNblocks) :
    m.synced (2 + j) =
      if m.fs.sfsFreemapdirty then freemapBlock m.fs.sfsFreemap j else m.fs.disk (2 + j) := by
  rw [synced_of_ne (by omega)]
  unfold freemapWrites
  split_ifs
  · exact freemapWritten_self hj
  · rw [freemapWritten_of_ne fun k hk => absurd hk (Nat.not_lt_zero k),
      h.inodesWritten_eq (Or.inr ⟨j, hj, rfl⟩)]

theorem Apart.synced_super (h : m.Apart) :
    m.synced 0 = if m.sfsSuperdirty then m.sfsSb else m.fs.disk 0 := by
  unfold synced
  split_ifs
  · exact update_self ..
  · rw [freemapWritten_of_ne fun j _ => by omega, h.inodesWritten_eq (Or.inl rfl)]

/-- An inode ends up on disk if it is written, and otherwise if it was there before. -/
theorem Apart.inodes_iff (h : m.Apart) :
    (∀ sv ∈ m.fs.sfsVnodes, sv.svI = m.synced sv.svIno) ↔ m.InodesWritten ∧
      ∀ sv ∈ m.fs.sfsVnodes, sv.svDirty = false → sv.svI = m.fs.disk sv.svIno := by
  have hnd : ((dirtyVnodes m.fs.sfsVnodes).map SfsVnode.svIno).Nodup :=
    h.nodup.sublist (List.filter_sublist.map _)
  have hclean : ∀ sv ∈ m.fs.sfsVnodes, sv.svDirty = false → m.synced sv.svIno =
      m.fs.disk sv.svIno := by
    intro sv hsv hd
    rw [h.synced_inode hsv]
    refine inodesWritten_of_ne _ _ _ fun sv' hsv' he => ?_
    obtain ⟨hmem, hd'⟩ := List.mem_filter.mp hsv'
    rw [List.inj_on_of_nodup_map h.nodup hmem hsv he, hd] at hd'
    cases hd'
  constructor
  · refine fun hall => ⟨fun k sv hk => ?_, fun sv hsv hd => (hall sv hsv).trans (hclean sv hsv hd)⟩
    have hsv := List.mem_of_mem_filter (List.mem_of_getElem? hk)
    have hw := hall sv hsv
    rw [h.synced_inode hsv, inodesWritten_getElem _ _ _ k hnd hk] at hw
    split_ifs at hw with hio
    · exact Or.inl hio
    · exact Or.inr hw
  · rintro ⟨hw, hall⟩ sv hsv
    cases hd : sv.svDirty with
    | true =>
      obtain ⟨k, hk⟩ := List.mem_iff_getElem?.mp (List.mem_filter.mpr ⟨hsv, hd⟩)
      rw [h.synced_inode hsv, inodesWritten_getElem _ _ _ k hnd hk]
      split_ifs with hio
      · rfl
      · exact (hw k sv hk).resolve_left hio
    | false => rw [hclean sv hsv hd, ← hall sv hsv hd]

/-- Everything ends up on disk exactly if each dirty inode is written or there already, and what
is not dirty is there. -/
theorem settled_iff (h : m.Apart) : m.Settled ↔ m.InodesWritten ∧ m.CleanOnDisk := by
  have hmap : (∀ j < sfsFreemapblocks m.fs.sbNblocks, ∀ k < 512,
      m.synced (2 + j) k = freemapBlock m.fs.sfsFreemap j k) ↔
        (m.fs.sfsFreemapdirty = false → FreemapOnDisk m.fs) := by
    refine ⟨fun hall hd j hj k hk => ?_, fun hall j hj k hk => ?_⟩
    · rw [← hall j hj k hk, h.synced_freemap hj, if_neg (by simp [hd])]
    · rw [h.synced_freemap hj]
      split_ifs with hd
      · rfl
      · exact hall (Bool.eq_false_iff.mpr hd) j hj k hk
  have hsuper : m.sfsSb = m.synced 0 ↔ (m.sfsSuperdirty = false → m.sfsSb = m.fs.disk 0) := by
    rw [h.synced_super]
    cases m.sfsSuperdirty <;> simp
  constructor
  · rintro ⟨hi, hm, hs⟩
    obtain ⟨hw, hc⟩ := h.inodes_iff.mp hi
    exact ⟨hw, hc, hmap.mp hm, hsuper.mp hs⟩
  · rintro ⟨hw, hc, hm, hs⟩
    exact ⟨h.inodes_iff.mpr ⟨hw, hc⟩, hmap.mpr hm, hsuper.mpr hs⟩

/-- A volume that satisfies the invariant is such a volume. -/
theorem apart_of_ok {loose : Set ℕ} (h : m.fs.Ok loose) : m.Apart where
  nodup := h.nodup
  apart sv hsv := by
    have href : m.fs.Ref (.inode sv.svIno) sv.svIno := ⟨live_of_mem hsv, rfl⟩
    refine ⟨fun h0 => ?_, fun j hj he => ?_⟩
    · cases h.held.inj href (show m.fs.Ref .super sv.svIno from h0)
    · cases h.held.inj href (show m.fs.Ref (.freemap j) sv.svIno from ⟨hj, he⟩)

theorem cleanOnDisk_of_ok {loose : Set ℕ} (h : m.fs.Ok loose)
    (hs : m.sfsSuperdirty = false → m.sfsSb = m.fs.disk 0) : m.CleanOnDisk where
  inodes := h.clean
  freemap hd j hj k hk := by
    have hix := h.cleanMap hd (j * 512 + k) (by rw [sfsFreemapbits_eq]; omega)
    rwa [show (j * 512 + k) / 512 = j by omega, show (j * 512 + k) % 512 = k by omega] at hix
  super := hs

end Mounted

/-- The blocks of the freemap are on the device. -/
theorem Sfs.Ok.freemap_lt {loose : Set ℕ} (h : s.Ok loose) :
    2 + sfsFreemapblocks s.sbNblocks ≤ s.dBlocks := by
  have hroot := h.lt_device (show s.Ref (.inode 1) 1 from ⟨live_root, rfl⟩)
  by_cases h0 : sfsFreemapblocks s.sbNblocks = 0
  · omega
  · have hlast := h.lt_device (show s.Ref (.freemap (sfsFreemapblocks s.sbNblocks - 1)) _
      from ⟨by omega, rfl⟩)
    omega

/-- With a device that works, `sfs_sync` of a volume that satisfies the invariant returns `0`. -/
theorem Mounted.not_syncFails {loose : Set ℕ} {m : Mounted} (h : m.fs.Ok loose) (hio : m.fs.IoOk) :
    ¬m.SyncFails := by
  have hmap := h.freemap_lt
  rintro (⟨sv, hsv, hle⟩ | ⟨j, hj, hle | hf⟩ | ⟨-, hle | hf⟩)
  · have hlt := h.lt_device (show m.fs.Ref (.inode sv.svIno) _ from
      ⟨live_of_mem (List.mem_of_mem_filter hsv), rfl⟩)
    omega
  · have := hj.trans_le (freemapWrites_le m.fs)
    omega
  · rw [hio] at hf
    cases hf
  · omega
  · rw [hio] at hf
    cases hf

theorem getWord_terminateVolname (sb : DiskBlock) :
    getWord (terminateVolname sb) 1 = getWord sb 1 := by
  simp [getWord, terminateVolname, update]

/-- `sfs_domount` leaves the superblock of the disk in memory only if the name of the volume ends
with a `NUL`. -/
theorem terminateVolname_eq_iff {sb : DiskBlock} : terminateVolname sb = sb ↔ sb 39 = 0 :=
  update_eq_self_iff.trans eq_comm

end OS161
