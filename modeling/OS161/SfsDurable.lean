import OS161.SfsCalls
import OS161.SfsSync

/-!
# Syncing a volume and mounting it again

`sfsSync_does` : `sfs_sync` changes nothing that the users of the file system see, and if the
device works, everything in memory is on disk afterwards. `sfsDomount_does` : what `sfs_domount`
reads is on disk. So a volume that is synced and mounted again has the same freemap and the same
files, `sfsDomount_same`.
-/

namespace OS161

open Sfs Volume

variable {ok : Halt → Prop} {s s' : Sfs} {loose : Set ℕ} {i : ℕ}

/-! ## `sfs_sync` -/

theorem sfsFsync_does (h : s.Ok loose) (hi : s.abs.refs i ≠ 0) :
    (sfsFsync i).Does ok s fun _ s' => Quiet s loose s' := by
  obtain ⟨sv, hsv⟩ := Ok.exists_loaded hi
  exact (sfsSyncInode_does h hsv).mono fun _ _ hr => hr.1

theorem sfsSyncVnodes_quiet (h : s.Ok loose) :
    sfsSyncVnodes.Does ok s fun _ s' => Quiet s loose s' := by
  unfold sfsSyncVnodes
  rw [Call.does_get_bind]
  refine Call.Does.forEach (I := fun l s' => Quiet s loose s' ∧ ∀ j ∈ l, s.abs.refs j ≠ 0)
    ?_ ?_ _ s ⟨Quiet.refl h, fun j hj => ?_⟩
  · rintro j l s₁ ⟨hq, hl⟩
    have hj : s₁.abs.refs j ≠ 0 := by
      rw [hq.abs]
      exact hl j List.mem_cons_self
    refine (sfsFsync_does hq.ok hj).attempt_bind fun _ s₂ hq₂ => ?_
    exact ⟨hq.trans hq₂, fun x hx => hl x (List.mem_cons_of_mem _ hx)⟩
  · exact fun s' hs' => hs'.1
  · obtain ⟨sv, hsv, rfl⟩ := List.mem_map.mp hj
    exact h.refs_ne_zero (loaded_of_mem h.nodup hsv)

theorem sfsFreemapio_write_quiet (h : s.Ok loose) (hd : s.sfsFreemapdirty = true) :
    (sfsFreemapio .write).Does ok s fun _ s' => Quiet s loose s' ∧ s'.sfsFreemapdirty = true := by
  unfold sfsFreemapio
  rw [Call.does_get_bind]
  refine Call.Does.forRange (I := fun _ s' => Quiet s loose s' ∧ s'.sfsFreemapdirty = true) ?_
    (fun _ h => h) ⟨Quiet.refl h, hd⟩
  rintro j hj s₁ ⟨hq, hd₁⟩
  have hnb : s₁.sbNblocks = s.sbNblocks := congrArg Fs.nblocks hq.abs
  have hj₁ : j < sfsFreemapblocks s₁.sbNblocks := by rwa [hnb]
  unfold writeFreemapBlock
  rw [Call.does_get_bind]
  refine does_writeblock (hq.ok.lt_device (show s₁.Ref (.freemap j) (2 + j) from ⟨hj₁, rfl⟩))
    (fun _ => ⟨hq.ioDone, hd₁⟩) fun _ => ?_
  obtain ⟨hp, habs, href⟩ := hq.ok.writeMap hd₁ hj₁
  exact ⟨hq.trans ⟨hp, habs, (Next.ioDone s₁).volume _, .of_iff href⟩, hd₁⟩

/-- A freemap that is on disk need not be written any more. -/
theorem Volume.Phys.cleaned {v : Volume} (h : v.Phys loose)
    (hmap : ∀ ix < sfsFreemapbits v.sbNblocks / 8,
      v.disk (2 + ix / 512) (ix % 512) = ⟨v.sfsFreemap.v ix⟩) :
    ({ v with sfsFreemapdirty := false } : Volume).Phys loose :=
  { h with cleanMap := fun _ => hmap }

theorem FreemapOnDisk.byte (h : FreemapOnDisk s) {ix : ℕ}
    (hix : ix < sfsFreemapbits s.sbNblocks / 8) :
    s.disk (2 + ix / 512) (ix % 512) = ⟨s.sfsFreemap.v ix⟩ := by
  rw [sfsFreemapbits_eq] at hix
  rw [h (ix / 512) (by omega) (ix % 512) (Nat.mod_lt _ (by decide))]
  unfold freemapBlock
  rw [Nat.div_add_mod']

theorem sfsSyncFreemap_quiet (h : s.Ok loose) :
    sfsSyncFreemap.Does ok s fun _ s' => Quiet s loose s' := by
  unfold sfsSyncFreemap
  rw [Call.does_get_bind]
  split_ifs with hd
  · have hw : (sfsFreemapio .write).Does anyHalt s _ := sfsFreemapio_write_does fun _ => trivial
    refine ((sfsFreemapio_write_quiet h hd).and hw).bind (fun e s' he => he.1.1) ?_
    rintro _ s₁ ⟨⟨hq, -⟩, hw⟩
    refine ⟨hq.ok.cleaned fun ix hix => ?_, hq.abs, hq.next.volume _,
      hq.grows.trans (.of_iff fun _ _ => Iff.rfl)⟩
    have hmap : FreemapOnDisk s₁ := fun j hj k _ => by
      rw [hw.nblocks] at hj
      rw [hw.disk, freemapWritten_self hj, hw.freemap]
    exact hmap.byte hix
  · exact Quiet.refl h

theorem sfsSync_quiet (h : s.Ok loose) : sfsSync.Does ok s fun _ s' => Quiet s loose s' := by
  refine (sfsSyncVnodes_quiet h).bind (fun _ _ hq => hq) fun _ s₁ hq => ?_
  exact (sfsSyncFreemap_quiet hq.ok).mono fun _ _ hq' => hq.trans hq'

/-- The superblock is never dirty. -/
theorem sfsSyncMounted_of_clean {sb : DiskBlock} {r : Except Errno Unit}
    (h : sfsSync s = .ok (r, s')) :
    sfsSyncMounted ⟨s, sb, false⟩ = .ok (r, ⟨s', sb, false⟩) := by
  have hm : onMounted sfsSync ⟨s, sb, false⟩ = .ok (r, ⟨s', sb, false⟩) := by
    unfold onMounted
    rw [h]
    rfl
  unfold sfsSyncMounted
  cases r with
  | ok _ => rw [Call.bind_of_ok hm]; rfl
  | error e => rw [Call.bind_of_error hm]

/-- With a device that works everything in memory is on disk after `sfs_sync`. -/
theorem sfsSync_does (h : s.Ok loose) (hio : s.IoOk) : sfsSync.Does ok s fun r s' => r = .ok () ∧
    Quiet s loose s' ∧ s'.sfsFreemap = s.sfsFreemap ∧
    (∀ sv ∈ s'.sfsVnodes, sv.svI = s'.disk sv.svIno) ∧ FreemapOnDisk s' := by
  let m : Mounted := ⟨s, s.disk 0, false⟩
  have hmount := Mounted.sync_does (m := m) h.nodup
  have hfails : ¬m.SyncFails := Mounted.not_syncFails h hio
  have hsettled : m.Settled := (Mounted.settled_iff (Mounted.apart_of_ok h)).mpr
    ⟨fun k sv _ => Or.inl (hio k), Mounted.cleanOnDisk_of_ok h fun _ => rfl⟩
  refine (sfsSync_quiet h).of_run fun r s' hrun hq => ?_
  have hpost := hmount.of_ok (sfsSyncMounted_of_clean hrun)
  cases r with
  | error e => exact absurd hpost hfails
  | ok _ =>
    obtain ⟨-, hiff, -, hmap⟩ := hpost
    obtain ⟨hino, hdisk, -⟩ := hiff.mpr hsettled
    exact ⟨rfl, hq, hmap, hino, hdisk⟩

/-! ## `sfs_domount` -/

/-- What `sfs_domount` makes of the disk `image`, the first `n` blocks of the freemap being
read. -/
structure MountedTo (image : ℕ → DiskBlock) (dBlocks n : ℕ) (s : Sfs) : Prop where
  io : s.IoOk
  disk : s.disk = image
  device : s.dBlocks = dBlocks
  vnodes : s.sfsVnodes = []
  nblocks : s.sbNblocks = getWord (image 0) 1
  nbits : s.sfsFreemap.nbits = sfsFreemapbits (getWord (image 0) 1)
  freemap : ∀ ix, ix / 512 < n →
    s.sfsFreemap.v ix = (image (2 + ix / 512) (ix % 512)).toBitVec

theorem sfsFreemapio_read_does {image : ℕ → DiskBlock} {dBlocks : ℕ}
    (h : MountedTo image dBlocks 0 s)
    (hdev : 2 + sfsFreemapblocks (getWord (image 0) 1) ≤ dBlocks) :
    (sfsFreemapio .read).Does ok s fun r s' => r = .ok () ∧
      MountedTo image dBlocks (sfsFreemapblocks (getWord (image 0) 1)) s' := by
  unfold sfsFreemapio
  rw [Call.does_get_bind, h.nblocks]
  refine Call.Does.forRange (I := fun j s' => MountedTo image dBlocks j s') ?_
    (fun _ h => ⟨rfl, h⟩) h
  intro j hj s₁ h₁
  unfold readFreemapBlock
  refine does_readblock (by rw [h₁.device]; omega) (fun hio => absurd (h₁.io 0) hio) fun _ => ?_
  refine ⟨fun n => h₁.io (n + 1), h₁.disk, h₁.device, h₁.vnodes, h₁.nblocks, h₁.nbits,
    fun ix hix => ?_⟩
  change (if ix / 512 = j then (s₁.disk (2 + j) (ix % 512)).toBitVec else s₁.sfsFreemap.v ix) = _
  split_ifs with he
  · rw [h₁.disk, he]
  · exact h₁.freemap ix (by omega)

theorem sfsDomountSb_does (hio : s.IoOk) (hmem : s.memory 0 = true ∧ s.memory 1 = true)
    (hmagic : getWord (s.disk 0) 0 = sfsMagic)
    (hdev : 2 + sfsFreemapblocks (getWord (s.disk 0) 1) ≤ s.dBlocks) :
    sfsDomountSb.Does ok s fun r s' => r = .ok (terminateVolname (s.disk 0)) ∧
      MountedTo s.disk s.dBlocks (sfsFreemapblocks (getWord (s.disk 0) 1)) s' := by
  have hk : kmallocAnswer s = .ok (.ok true, s.memoryDone) := by
    rw [← hmem.1]
    rfl
  have hrd : sfsReadblock 0 s.memoryDone = _ :=
    sfsReadblock_eq (show 0 < s.dBlocks by omega)
  rw [if_pos (show s.memoryDone.io 0 = true from hio 0)] at hrd
  have hk' : kmallocAnswer s.memoryDone.ioDone =
      .ok (.ok true, s.memoryDone.ioDone.memoryDone) := by
    rw [← hmem.2]
    rfl
  have hmagic' : getWord (s.memoryDone.disk 0) 0 = sfsMagic := hmagic
  unfold sfsDomountSb
  rw [Call.does_bind_of_ok hk, if_neg (by decide), Call.does_bind_of_ok hrd,
    if_neg (not_not.mpr hmagic'), Call.does_bind_of_ok hk', if_neg (by decide), onVolume,
    Call.does_modify_bind, getWord_terminateVolname]
  refine Call.Does.bind (P := fun r s' => r = .ok () ∧
    MountedTo s.disk s.dBlocks (sfsFreemapblocks (getWord (s.disk 0) 1)) s') ?_
    (fun _ _ h => absurd h.1 (by simp)) fun _ s' h => ⟨rfl, h.2⟩
  exact sfsFreemapio_read_does ⟨fun n => hio (n + 1), rfl, rfl, rfl, rfl, rfl,
    fun ix hix => absurd hix (Nat.not_lt_zero _)⟩ hdev

theorem sfsDomount_does (hio : s.IoOk) (hmem : s.memory 0 = true ∧ s.memory 1 = true)
    (hmagic : getWord (s.disk 0) 0 = sfsMagic)
    (hdev : 2 + sfsFreemapblocks (getWord (s.disk 0) 1) ≤ s.dBlocks) :
    sfsDomount.Does ok s fun r s' => r = .ok () ∧
      MountedTo s.disk s.dBlocks (sfsFreemapblocks (getWord (s.disk 0) 1)) s' :=
  (sfsDomountSb_does hio hmem hmagic hdev).bind (fun _ _ h => absurd h.1 (by simp))
    fun _ _ h => ⟨rfl, h.2⟩

/-! ## Mounting again -/

theorem inode_eq_disk (h : ∀ sv ∈ s.sfsVnodes, sv.svI = s.disk sv.svIno) (i : ℕ) :
    s.inode i = s.disk i := by
  unfold Volume.inode
  cases hi : s.loaded i with
  | none => rfl
  | some sv =>
    obtain ⟨hmem, hino⟩ := loaded_eq_some hi
    exact (h sv hmem).trans (by rw [hino])

/-- The volume that is mounted is the one that was synced. -/
structure SameVolume (s s' : Sfs) : Prop where
  nblocks : s'.sbNblocks = s.sbNblocks
  freemap : ∀ b < sfsFreemapbits s.sbNblocks, s'.sfsFreemap.Marked b ↔ s.sfsFreemap.Marked b
  files : ∀ i, s'.view i = s.view i

theorem sfsDomount_same {t : Sfs} (h : s.Ok loose)
    (hino : ∀ sv ∈ s.sfsVnodes, sv.svI = s.disk sv.svIno)
    (hmap : FreemapOnDisk s) (hdisk : t.disk = s.disk) (hdev : t.dBlocks = s.dBlocks)
    (hio : t.IoOk) (hmem : t.memory 0 = true ∧ t.memory 1 = true) :
    sfsDomount.Does ok t fun r t' => r = .ok () ∧ SameVolume s t' := by
  obtain ⟨hmagic, hnb⟩ := h.super
  have hnb' : getWord (t.disk 0) 1 = s.sbNblocks := by rw [hdisk, hnb]
  refine (sfsDomount_does hio hmem (by rw [hdisk]; exact hmagic) ?_).mono ?_
  · rw [hnb', hdev]
    exact h.freemap_lt
  · rintro r t' ⟨hr, hm⟩
    rw [hnb'] at hm
    refine ⟨hr, hm.nblocks.trans hnb', fun b hb => ?_, fun i => ?_⟩
    · have hix : b / 8 < sfsFreemapbits s.sbNblocks / 8 := by
        rw [sfsFreemapbits_eq] at hb ⊢
        omega
      have hv : t'.sfsFreemap.v (b / 8) = s.sfsFreemap.v (b / 8) := by
        rw [hm.freemap (b / 8) (by rw [sfsFreemapbits_eq] at hix; omega), hdisk, hmap.byte hix]
      rw [Bitmap.marked_iff, Bitmap.marked_iff, hv]
    · have hi' : t'.inode i = s.inode i := by
        rw [inode_eq_disk (by simp [hm.vnodes]), inode_eq_disk hino, hm.disk, hdisk]
      unfold view
      rw [hi', hm.disk, hdisk]

end OS161
