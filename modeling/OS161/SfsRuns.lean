import OS161.SfsRefine

/-!
# Runs of SFS

The operations one after the other, on a volume that is well formed at the start (`WellFormed`).

`block_ownership_exact` : as long as the device works, the freemap marks the blocks that have a role
and no others, each block has one role, and no operation panics. `directory_is_map` : the directory
is a finite map from names to inodes, with the right link counts, which the operations on names
change as they should (`MapStep`). `io_errors_iff` : when the device fails, the blocks and their
roles still fit together exactly if no request to write an indirect block fails, of those that
`sfs_bmap` and `sfs_itrunc` make. `sync_durable` : a volume that is synced can be mounted again and
has the same files.
-/

namespace OS161

open Sfs Volume Function

/-! ## Runs -/

/-- A well-formed volume, on which nothing has gone wrong. -/
structure Sfs.WellFormed (s : Sfs) : Prop where
  phys : s.toVolume.Phys ∅
  wf : s.abs.WF
  leaked : s.leaked = []

/-- An operation that is called as it should, and its result. -/
def Sfs.Step (s : Sfs) (l : SfsOp × SfsResult) (s' : Sfs) : Prop :=
  l.1.Valid s.abs ∧ l.1.run s = .ok (.ok l.2, s')

variable {s₀ s s' : Sfs} {op : SfsOp} {res : SfsResult} {l : List (SfsOp × SfsResult)} {i : ℕ}

namespace Sfs

theorem WellFormed.ok (h : s.WellFormed) : s.Ok ∅ := by
  have hempty : ({b | b ∈ s.leaked} : Set ℕ) = ∅ := by simp [h.leaked]
  unfold Ok
  rw [hempty, Set.union_empty]
  exact h.phys

theorem WellFormed.of_ok (h : s.Ok ∅) (hwf : s.abs.WF) (hl : s.leaked = []) :
    s.WellFormed := by
  refine ⟨?_, hwf, hl⟩
  have hempty : ({b | b ∈ s.leaked} : Set ℕ) = ∅ := by simp [hl]
  unfold Ok at h
  rwa [hempty, Set.union_empty] at h

/-- An operation on a well-formed volume, with a device that works. -/
theorem WellFormed.run_does {ok : Halt → Prop} (h : s.WellFormed) (hio : s.IoOk)
    (hn : op.Transfers → s.sbNblocks ≤ 2 ^ 23) (hv : op.Valid s.abs) :
    op.run.Does ok s fun r s' => ∃ res, r = .ok res ∧ Performed op s res s' ∧ s'.WellFormed ∧
      s'.IoOk ∧ s'.sbNblocks = s.sbNblocks := by
  refine (SfsOp.run_does h.ok h.wf (fun hno => absurd hio hno) hn hv).mono ?_
  rintro r s' ⟨res, hr, hp | ⟨hno, -⟩⟩
  · have hnb : s'.abs.nblocks = s.abs.nblocks := (hp.refines hio).nblocks
    exact ⟨res, hr, hp, .of_ok hp.ok hp.wf ((hp.next.leaked hio).trans h.leaked),
      hp.next.io hio, hnb⟩
  · exact absurd hio hno

/-- It returns. -/
theorem WellFormed.exists_run (h : s.WellFormed) (hio : s.IoOk)
    (hn : op.Transfers → s.sbNblocks ≤ 2 ^ 23) (hv : op.Valid s.abs) :
    ∃ res s', op.run s = .ok (.ok res, s') ∧ Performed op s res s' := by
  have hdoes : op.run.Does (fun _ => False) s _ := h.run_does hio hn hv
  obtain ⟨r, s', hrun, res, rfl, hp, -⟩ := hdoes.exists_ok
  exact ⟨res, s', hrun, hp⟩

/-- A step. -/
theorem Step.wellFormed {x : SfsOp × SfsResult} (hs : Sfs.Step s x s') (h : s.WellFormed)
    (hio : s.IoOk) (hn : x.1.Transfers → s.sbNblocks ≤ 2 ^ 23) :
    s'.WellFormed ∧ s'.IoOk ∧ s'.sbNblocks = s.sbNblocks := by
  have hdoes : x.1.run.Does anyHalt s _ := h.run_does hio hn hs.1
  obtain ⟨res, hr, -, hrest⟩ := hdoes.of_ok hs.2
  exact hrest

end Sfs

/-- A run of operations that do not transfer data, or on a small volume. -/
theorem wellFormed_of_run {G : Sfs → SfsOp × SfsResult → Prop} (h : s₀.WellFormed) (hio : s₀.IoOk)
    (hG : ∀ s x, G s x → x.1.Transfers → s₀.sbNblocks ≤ 2 ^ 23)
    (hrun : Run (guarded G Sfs.Step) s₀ l s) :
    s.WellFormed ∧ s.IoOk ∧ s.sbNblocks = s₀.sbNblocks := by
  refine hrun.invariant (I := fun s => s.WellFormed ∧ s.IoOk ∧ s.sbNblocks = s₀.sbNblocks)
    ⟨h, hio, rfl⟩ ?_
  rintro s x s' ⟨hs, hio', hnb⟩ ⟨hstep, hx⟩
  obtain ⟨hs', hio'', hnb'⟩ := hstep.wellFormed hs hio' fun ht => hnb ▸ hG s x hx ht
  exact ⟨hs', hio'', hnb'.trans hnb⟩

/-- A run on a small volume. -/
theorem wellFormed_of_run_small (h : s₀.WellFormed) (hio : s₀.IoOk) (hn : s₀.sbNblocks ≤ 2 ^ 23)
    (hrun : Run Sfs.Step s₀ l s) : s.WellFormed ∧ s.IoOk ∧ s.sbNblocks ≤ 2 ^ 23 := by
  have hrun' : Run (guarded (fun _ _ => True) Sfs.Step) s₀ l s :=
    hrun.mono fun _ _ _ hs => ⟨hs, trivial⟩
  obtain ⟨hs, hio', hnb⟩ := wellFormed_of_run h hio (fun _ _ _ _ => hn) hrun'
  exact ⟨hs, hio', hnb.trans_le hn⟩

/-! ## A small volume -/

theorem openFile_wellFormed : openFile.WellFormed :=
  .of_ok openFile_ok openFile_wf rfl

/-- Create a file. -/
def createFile : SfsOp :=
  .creat 1 ⟨[102], by decide⟩ false

/-- Write two bytes to the new file. -/
def writeFile : SfsOp :=
  .write 4 ⟨[2], 0, 2, .write, [7, 8]⟩

/-- The file is created and written. -/
theorem openFile_written : ∃ s₁ s, Sfs.Step openFile (createFile, .ok (), .vnode 4) s₁ ∧
    Sfs.Step s₁ (writeFile, .ok (), .uio ⟨[], 2, 0, .write, []⟩) s ∧
    s₁.refs 1 = 1 ∧ s.refs 4 = 1 := by
  obtain ⟨res, s₁, hcreat, hg⟩ := Call.exists_of_eval (m := createFile.run) (s := openFile)
    (g := fun res s₁ => (res, (writeFile.run s₁).toOption.bind fun r =>
      r.1.toOption.map fun res => (res, [s₁.refs 1, s₁.refs 4, r.2.refs 4])))
    (c := ((.ok (), .vnode 4), some ((.ok (), .uio ⟨[], 2, 0, .write, []⟩), [1, 1, 1])))
    (by decide +kernel)
  obtain ⟨rfl, hwrite⟩ := Prod.mk.inj hg
  obtain ⟨res, s, hwrite, hg⟩ := Call.exists_of_eval (m := writeFile.run)
    (g := fun res s => (res, [s₁.refs 1, s₁.refs 4, s.refs 4])) hwrite
  simp only [Prod.mk.injEq, List.cons.injEq, and_true] at hg
  obtain ⟨⟨rfl, rfl⟩, hroot, hrefs, hrefs'⟩ := hg
  refine ⟨s₁, s, ⟨?_, hcreat⟩, ⟨⟨?_, rfl, by decide, by decide⟩, hwrite⟩, hroot, hrefs'⟩
  · exact openFile_onlyFile.refs_ne_zero (by decide) (Or.inr rfl)
  · exact hrefs.trans_ne one_ne_zero

/-! ## A large volume -/

namespace Sfs

/-- The freemap of `largeVolume` : blocks `0` to `2051` and block `2 ^ 23 + 1` are in use. -/
def largeMap (ix : ℕ) : BitVec 8 :=
  if ix < 256 then 0xff#8 else if ix = 256 then 0x0f#8 else if ix = 2 ^ 20 then 0x02#8 else 0

/-- The inode of a file of one block, block `2 ^ 23 + 1`. -/
def largeInode : DiskBlock :=
  setSfiDirect 0 (2 ^ 23 + 1) (setSfiSize 512 (emptyInode sfsTypeFile 0))

/-- A volume of more than `2 ^ 23` blocks, with the root directory and a file in memory. Nothing is
dirty. -/
def largeVolume : Sfs where
  sbNblocks := 2 ^ 23 + 4096
  sfsFreemap := ⟨2 ^ 23 + 4096, largeMap⟩
  sfsFreemapdirty := false
  sfsVnodes := [⟨largeInode, 2051, false, 1⟩, ⟨emptyInode sfsTypeDir 1, 1, false, 1⟩]
  dBlocks := 2 ^ 23 + 4096
  disk b := if b = 0 then setWord (setWord zeroBlock 0 sfsMagic) 1 (2 ^ 23 + 4096)
    else if b = 1 then emptyInode sfsTypeDir 1
    else if b < 2051 then fun k => ⟨largeMap ((b - 2) * 512 + k)⟩
    else if b = 2051 then largeInode else zeroBlock
  io _ := true
  memory _ := true
  calls := 0
  idcalls := []
  leaked := []

theorem largeVolume_onlyFile : largeVolume.OnlyFile 2051 largeInode :=
  ⟨false, rfl⟩

theorem largeVolume_freemapblocks : sfsFreemapblocks largeVolume.sbNblocks = 2049 := by
  decide

theorem filePtr_largeInode (disk : ℕ → DiskBlock) :
    filePtr disk largeInode = update (fun _ => 0) 0 (2 ^ 23 + 1) := by
  have hempty : filePtr disk (setSfiSize 512 (emptyInode sfsTypeFile 0)) = fun _ => 0 := by
    rw [← funext (filePtr_emptyInode disk sfsTypeFile 0)]
    exact filePtr_congr (by simp) (by simp) fun _ => rfl
  unfold largeInode
  rw [filePtr_setSfiDirect (by decide) (by decide), hempty]

theorem largeVolume_ref_iff {o : Role} {b : ℕ} : largeVolume.Ref o b ↔
    o = .super ∧ b = 0 ∨ o = .inode 1 ∧ b = 1 ∨ (∃ k < 2049, o = .freemap k ∧ b = 2 + k) ∨
    o = .inode 2051 ∧ b = 2051 ∨ o = .data 2051 0 ∧ b = 2 ^ 23 + 1 := by
  have hind : sfiIndirect largeInode = 0 := by
    unfold largeInode
    rw [sfiIndirect_setSfiDirect _ _ _ (by decide), sfiIndirect_setSfiSize,
      sfiIndirect_emptyInode]
  rw [largeVolume_onlyFile.ref_iff (by decide), largeVolume_freemapblocks, hind,
    filePtr_largeInode]
  constructor
  · rintro (h | h | h | h | ⟨-, h0, hb⟩ | ⟨fb, ho, h0, hb⟩)
    · exact Or.inl h
    · exact Or.inr (Or.inl h)
    · exact Or.inr (Or.inr (Or.inr (Or.inl h)))
    · exact Or.inr (Or.inr (Or.inl h))
    · exact absurd hb.symm h0
    · rcases eq_or_ne fb 0 with rfl | hfb
      · exact Or.inr (Or.inr (Or.inr (Or.inr ⟨ho, hb.symm⟩)))
      · rw [update_of_ne hfb] at hb
        exact absurd hb.symm h0
  · rintro (h | h | h | h | ⟨rfl, rfl⟩)
    · exact Or.inl h
    · exact Or.inr (Or.inl h)
    · exact Or.inr (Or.inr (Or.inr (Or.inl h)))
    · exact Or.inr (Or.inr (Or.inl h))
    · exact Or.inr (Or.inr (Or.inr (Or.inr (Or.inr ⟨0, rfl, by decide, update_self ..⟩))))

theorem largeVolume_marked_iff {b : ℕ} :
    largeVolume.sfsFreemap.Marked b ↔ b < 2052 ∨ b = 2 ^ 23 + 1 := by
  have hbits : ∀ j < 8, (0xff#8).getLsbD j = true ∧ ((0x0f#8).getLsbD j = true ↔ j < 4) ∧
      ((0x02#8).getLsbD j = true ↔ j = 1) := by
    decide
  obtain ⟨h1, h2, h3⟩ := hbits (b % 8) (Nat.mod_lt b (by decide))
  rw [Bitmap.marked_iff]
  change (largeMap (b / 8)).getLsbD (b % 8) = true ↔ _
  unfold largeMap
  split_ifs with hlt heq heq'
  · simp only [h1, true_iff]
    omega
  · rw [h2]
    omega
  · rw [h3]
    omega
  · simp only [BitVec.ofNat_eq_ofNat, BitVec.getLsbD_zero, Bool.false_eq_true, false_iff]
    omega

theorem largeVolume_inUse_iff {b : ℕ} : largeVolume.InUse b ↔ ∃ o, largeVolume.Ref o b := by
  unfold InUse
  rw [largeVolume_marked_iff]
  constructor
  · rintro ⟨-, hb⟩
    have hcases : b = 0 ∨ b = 1 ∨ (2 ≤ b ∧ b < 2051) ∨ b = 2051 ∨ b = 2 ^ 23 + 1 := by omega
    rcases hcases with rfl | rfl | ⟨h2, hlt⟩ | rfl | rfl
    · exact ⟨.super, largeVolume_ref_iff.mpr (by simp)⟩
    · exact ⟨.inode 1, largeVolume_ref_iff.mpr (by simp)⟩
    · exact ⟨.freemap (b - 2), largeVolume_ref_iff.mpr
        (Or.inr (Or.inr (Or.inl ⟨b - 2, by omega, rfl, by omega⟩)))⟩
    · exact ⟨.inode 2051, largeVolume_ref_iff.mpr (by simp)⟩
    · exact ⟨.data 2051 0, largeVolume_ref_iff.mpr (by simp)⟩
  · rintro ⟨o, ho⟩
    change b < 2 ^ 23 + 4096 ∧ _
    rcases largeVolume_ref_iff.mp ho with ⟨-, rfl⟩ | ⟨-, rfl⟩ | ⟨k, hk, -, rfl⟩ | ⟨-, rfl⟩ |
      ⟨-, rfl⟩
    all_goals omega

theorem largeVolume_inj {o o' : Role} {b : ℕ} (ho : largeVolume.Ref o b)
    (ho' : largeVolume.Ref o' b) : o = o' := by
  rw [largeVolume_ref_iff] at ho ho'
  rcases ho with ⟨rfl, rfl⟩ | ⟨rfl, rfl⟩ | ⟨k, hk, rfl, rfl⟩ | ⟨rfl, rfl⟩ | ⟨rfl, rfl⟩ <;>
    rcases ho' with ⟨rfl, hb⟩ | ⟨rfl, hb⟩ | ⟨k', hk', rfl, hb⟩ | ⟨rfl, hb⟩ | ⟨rfl, hb⟩ <;>
    first | rfl | omega | exact congrArg Role.freemap (by omega)

theorem largeVolume_ok : largeVolume.Ok ∅ where
  nbits := by decide
  cover := by decide
  padding b hb hlt := by
    have hbits : sfsFreemapbits largeVolume.sbNblocks = largeVolume.sbNblocks := by decide
    omega
  device := le_rfl
  super := by decide +kernel
  nodup := by decide
  counted := by simp [largeVolume]
  held := by
    refine ⟨fun b => ?_, largeVolume_inj, fun _ => by simp [largeVolume]⟩
    rw [largeVolume_inUse_iff]
    simp [largeVolume]
  clean sv hsv _ := by
    rcases List.mem_cons.mp hsv with rfl | hsv
    · rfl
    · rw [List.mem_singleton.mp hsv]
      rfl
  cleanMap _ ix hix := by
    have hbits : sfsFreemapbits largeVolume.sbNblocks / 8 = 2049 * 512 := by decide
    have hsub : 2 + ix / 512 - 2 = ix / 512 := by omega
    change (if 2 + ix / 512 = 0 then _ else if 2 + ix / 512 = 1 then _ else
      if 2 + ix / 512 < 2051 then fun k => (⟨largeMap ((2 + ix / 512 - 2) * 512 + k)⟩ : UInt8)
      else _ : DiskBlock) (ix % 512) = ⟨largeMap ix⟩
    rw [if_neg (by omega), if_neg (by omega), if_pos (by omega), hsub]
    rw [Nat.div_add_mod']

theorem largeVolume_wellFormed : largeVolume.WellFormed :=
  .of_ok largeVolume_ok (largeVolume_onlyFile.wf (by decide) largeVolume_ok (by decide +kernel)
    (by decide +kernel)) rfl

/-- A write of the whole block of the file. `sfs_blockio` writes it to block `1`, the inode of the
root directory, which then refers to block `2053`. -/
def overwrite : SfsOp :=
  .write 2051 ⟨[512], 0, 512, .write, .replicate 10 0 ++ [8, 5] ++ .replicate 500 0⟩

theorem overwrite_valid : overwrite.Valid largeVolume.abs :=
  ⟨largeVolume_onlyFile.refs_ne_zero (by decide) (Or.inl rfl), rfl, by decide, by decide⟩

end Sfs

/-! ## The blocks and their roles -/

/-- In every run on a volume of at most `2 ^ 23` blocks, the freemap marks exactly the blocks that
have a role, no block has two, and no operation panics. -/
theorem block_ownership_exact (h : s₀.WellFormed) (hio : s₀.IoOk) (hn : s₀.sbNblocks ≤ 2 ^ 23)
    (hrun : Run Sfs.Step s₀ l s) :
    (∀ b < s.sbNblocks, s.sfsFreemap.Marked b ↔ ∃ o, s.Ref o b) ∧
    (∀ o o' b, s.Ref o b → s.Ref o' b → o = o') ∧
    ∀ op : SfsOp, op.Valid s.abs → ∃ res s', op.run s = .ok (.ok res, s') := by
  obtain ⟨hs, hio', hnb⟩ := wellFormed_of_run_small h hio hn hrun
  refine ⟨fun b hb => ?_, fun o o' b => hs.phys.held.inj, fun op hv => ?_⟩
  · have hmem := hs.phys.held.mem b
    rw [Set.mem_empty_iff_false, false_or] at hmem
    rw [← hmem]
    exact (and_iff_right hb).symm
  · obtain ⟨res, s', hrun', -⟩ := hs.exists_run hio' (fun _ => hnb) hv
    exact ⟨res, s', hrun'⟩

theorem block_ownership_exact_created : ∃ s, Run Sfs.Step openFile
      [(writeFile, .ok (), .uio ⟨[], 2, 0, .write, []⟩), (createFile, .ok (), .vnode 4)] s ∧
    (∀ b < s.sbNblocks, s.sfsFreemap.Marked b ↔ ∃ o, s.Ref o b) ∧
    (∀ o o' b, s.Ref o b → s.Ref o' b → o = o') ∧
    ∀ op : SfsOp, op.Valid s.abs → ∃ res s', op.run s = .ok (.ok res, s') := by
  obtain ⟨s₁, s, hcreat, hwrite, -⟩ := openFile_written
  have hrun := (Run.start.snoc hcreat).snoc hwrite
  exact ⟨s, hrun, block_ownership_exact openFile_wellFormed (fun _ => rfl) (by decide) hrun⟩

/-- The root directory is dropped from memory after its inode has been overwritten : it refers to a
block that is not marked. -/
theorem root_overwritten : largeVolume.WellFormed ∧ largeVolume.IoOk ∧
    ∃ l s, Run Sfs.Step largeVolume l s ∧
      ∃ b < s.sbNblocks, s.Ref (.data 1 0) b ∧ ¬s.sfsFreemap.Marked b := by
  refine ⟨largeVolume_wellFormed, fun _ => rfl, ?_⟩
  obtain ⟨w, s₁, hwrite, hg⟩ := Call.exists_of_eval (m := overwrite.run) (s := largeVolume)
    (g := fun _ s => (s.refs 1, ((SfsOp.decref 1).run s).toOption.bind fun r =>
      r.1.toOption.map fun _ => (r.2.sbNblocks, r.2.ptr 1 0, (r.2.sfsFreemap.v 256).getLsbD 5)))
    (c := (1, some (2 ^ 23 + 4096, 2053, false))) (by decide +kernel)
  obtain ⟨hrefs, hdecref⟩ := Prod.mk.inj hg
  obtain ⟨d, s₂, hdrop, hg⟩ := Call.exists_of_eval (m := (SfsOp.decref 1).run)
    (g := fun _ s => (s.sbNblocks, s.ptr 1 0, (s.sfsFreemap.v 256).getLsbD 5)) hdecref
  simp only [Prod.mk.injEq] at hg
  refine ⟨_, s₂, (Run.start.snoc (a := (overwrite, w)) ⟨overwrite_valid, hwrite⟩).snoc
    (a := (.decref 1, d)) ⟨?_, hdrop⟩, 2053, ?_, ⟨live_root, by decide, hg.2.1⟩, ?_⟩
  · exact fun h0 => absurd (hrefs.symm.trans h0) one_ne_zero
  · rw [hg.1]
    decide
  · rw [Bitmap.marked_iff]
    exact ne_true_of_eq_false hg.2.2

/-! ## The directory -/

/-- The operations on names and references. -/
def SfsOp.OnNames (op : SfsOp) : Prop :=
  ¬op.Transfers ∧ ¬op.Truncates

/-- What they do to the map from names to inodes. -/
inductive MapStep (m : List UInt8 → Option ℕ) :
    SfsOp → SfsResult → (List UInt8 → Option ℕ) → Prop
  | fails {op : SfsOp} {e : Errno} {ret : SfsRet} : MapStep m op (.error e, ret) m
  | lookup {name : CString} {i : ℕ} (hi : m name.bytes = some i) :
      MapStep m (.lookup 1 name) (.ok (), .vnode i) m
  | creatOld {name : CString} {i : ℕ} (hi : m name.bytes = some i) :
      MapStep m (.creat 1 name false) (.ok (), .vnode i) m
  | creatNew {name : CString} {excl : Bool} {i : ℕ} (hn : m name.bytes = none) :
      MapStep m (.creat 1 name excl) (.ok (), .vnode i) (update m name.bytes (some i))
  | link {name : CString} {i : ℕ} (hn : m name.bytes = none) :
      MapStep m (.link 1 name i) (.ok (), .none) (update m name.bytes (some i))
  | remove {name : CString} {i : ℕ} (hi : m name.bytes = some i) :
      MapStep m (.remove 1 name) (.ok (), .none) (update m name.bytes none)
  | rename {n1 n2 : CString} {i : ℕ} (h1 : m n1.bytes = some i) (h2 : m n2.bytes = none) :
      MapStep m (.rename 1 n1 1 n2) (.ok (), .none)
        (update (update m n1.bytes none) n2.bytes (some i))
  | getroot : MapStep m .getroot (.ok (), .vnode 1) m
  | incref (i : ℕ) : MapStep m (.incref i) (.ok (), .none) m
  | decref (i : ℕ) : MapStep m (.decref i) (.ok (), .none) m
  | fsync (i : ℕ) : MapStep m (.fsync i) (.ok (), .none) m
  | sync : MapStep m .sync (.ok (), .none) m

section Map

variable {a a' : Fs} {k : ℕ} {name : CString}

/-- The root directory stays. -/
theorem Fs.WF.decref_root (h : a.WF) (i : ℕ) : (a.decref i).file 1 = a.file 1 := by
  unfold Fs.decref
  split_ifs with hr hl
  · rfl
  · refine a.setFile_file_ne ?_ _
    rintro rfl
    exact h.root.links hl
  · rfl

theorem FileView.IsDir.dirMap_bindsTo {f : FileView} (h : f.IsDir) (hb : f.BindsTo name k i) :
    f.dirMap name.bytes = some i :=
  h.dirMap_eq_some.mpr ⟨k, hb.1, hb.2⟩

theorem FileView.Takes.dirMap_eq_none {f : FileView} (h : f.Takes name k) :
    f.dirMap name.bytes = Option.none :=
  FileView.dirMap_eq_none.mpr h.unbound

/-- A new name in the map. -/
theorem Fs.WF.dirMap_bindName (h : a.WF) (hk : (a.file 1).Takes name k) (hi1 : i ≠ 1)
    (hi : i ≠ 0 ∧ i < 2 ^ 32) : ((a.bindName k name i).file 1).dirMap =
      update (a.file 1).dirMap name.bytes (some i) := by
  have hino := sfdIno_direntry hi.2 name.bytes
  have hname := sfdName_direntry i hk.length_le
  have hmap := h.root.dirMap_link (d := direntry i name.bytes) hk.free (by rw [hino]; exact hi.1)
    (by rw [hname]; exact hk.unbound)
  rwa [hino, hname, ← Fs.bindName_root hi1] at hmap

/-- A name is taken out of the map. -/
theorem Fs.WF.dirMap_unbindSlot (h : a.WF) (hb : (a.file 1).BindsTo name k i) (hi1 : i ≠ 1) :
    ((a.unbindSlot k i).file 1).dirMap =
      update (a.file 1).dirMap name.bytes Option.none := by
  have hd : sfdIno (direntry 0 []) = 0 := sfdIno_direntry (by decide) []
  have hmap := h.root.dirMap_unlink hb.1.1 hb.1.2.1 hd
  have hroot : (a.unbindSlot k i).file 1 = (a.file 1).setEntry k (direntry 0 []) := by
    unfold Fs.unbindSlot
    rw [Fs.setLinks_file_ne hi1.symm, Fs.setSlot_root]
  rw [hroot, hmap, hb.1.2.2]

/-- The old name stays bound when the file gets a new one. -/
theorem FileView.Takes.bindsTo_bindName {n1 n2 : CString} {k' : ℕ}
    (hk : (a.file 1).Takes n2 k') (hi1 : i ≠ 1) (hb : (a.file 1).BindsTo n1 k i) :
    (((a.addRef i).bindName k' n2 i).file 1).BindsTo n1 k i := by
  have hne : k ≠ k' := by
    rintro rfl
    exact hk.free.not_namedAt hb.namedAt
  rw [Fs.bindName_root hi1]
  refine ⟨(FileView.binds_setEntry hk.free.le).mpr (Or.inr ⟨hne, hb.1⟩), ?_⟩
  rw [FileView.slotIno_setEntry, if_neg hne]
  exact hb.2

/-- A file that is in use has a reference after `sfs_remove` and `sfs_rename` have taken one. -/
theorem Fs.addRef_refs_ne_zero (a : Fs) (i : ℕ) : (a.addRef i).refs i ≠ 0 := by
  rw [Fs.addRef_refs]
  exact Nat.succ_ne_zero _

theorem FsStep.map (h : FsStep a op res a') (hwf : a.WF) (hv : op.Valid a) (hop : op.OnNames)
    (hino : ∀ i, a.Live i ∨ a'.Live i → i ≠ 0 ∧ i < 2 ^ 32) :
    MapStep (a.file 1).dirMap op res (a'.file 1).dirMap := by
  have hnamed : ∀ {name : CString} {k i : ℕ}, (a.file 1).BindsTo name k i →
      i ≠ 1 ∧ (a.addRef i).WF := fun hb =>
    ⟨hwf.named ⟨_, hb.namedAt⟩, hwf.addRef (Or.inr (Or.inr ⟨_, hb.namedAt⟩))⟩
  cases h with
  | fails op e => exact .fails
  | getroot => exact .getroot
  | lookup hb => exact .lookup (hwf.root.dirMap_bindsTo hb)
  | creatOld hb => exact .creatOld (hwf.root.dirMap_bindsTo hb)
  | @creatNew name excl k i hi hk =>
    have hi1 : i ≠ 1 := fun h1 => hi (Or.inl h1)
    have hroot : (a.addFile i).file 1 = a.file 1 := a.setFile_file_ne hi1.symm _
    have hlive : ((a.addFile i).bindName k name i).Live i := by
      refine Or.inr (Or.inl ?_)
      change (a.addFile i).refs i ≠ 0
      rw [show (a.addFile i).refs i = 1 from Fs.setRefs_refs _ i 1]
      exact one_ne_zero
    rw [(hwf.addFile hi).dirMap_bindName (hroot ▸ hk) hi1 (hino i (Or.inr hlive)), hroot]
    exact .creatNew hk.dirMap_eq_none
  | @link name k i hi hk =>
    rw [hwf.dirMap_bindName hk hi (hino i (Or.inl (Or.inr (Or.inl hv.2))))]
    exact .link hk.dirMap_eq_none
  | @remove name k i hb =>
    obtain ⟨hi1, hwf₁⟩ := hnamed hb
    have hwf₂ := hwf₁.unbindSlot (a.addRef_refs_ne_zero i) hb.namedAt
    rw [hwf₂.decref_root, hwf₁.dirMap_unbindSlot hb hi1]
    exact .remove (hwf.root.dirMap_bindsTo hb)
  | @rename n1 n2 k i k' hb hk =>
    obtain ⟨hi1, hwf₁⟩ := hnamed hb
    have hi : i ≠ 0 ∧ i < 2 ^ 32 := hino i (Or.inl (Or.inr (Or.inr ⟨k, hb.namedAt⟩)))
    have hr := a.addRef_refs_ne_zero i
    have hwf₂ := hwf₁.bindName hi1 hr hi.1 hi.2 hk.free hk.unbound hk.length_le
    have hb₂ := hk.bindsTo_bindName hi1 hb
    have hold := hwf.root.dirMap_bindsTo hb
    have hnew := hk.dirMap_eq_none
    have hnames : n1.bytes ≠ n2.bytes := fun he => by
      rw [he, hnew] at hold
      cases hold
    rw [(hwf₂.unbindSlot hr hb₂.namedAt).decref_root, hwf₂.dirMap_unbindSlot hb₂ hi1,
      hwf₁.dirMap_bindName hk hi1 hi, update_comm hnames.symm]
    exact .rename hold hnew
  | read | write => exact absurd trivial hop.1
  | truncate => exact absurd trivial hop.2
  | incref i => exact .incref i
  | decref i =>
    rw [hwf.decref_root]
    exact .decref i
  | fsync i => exact .fsync i
  | sync => exact .sync

end Map

/-- In every run of operations on names and references, no name is in two slots, the link counts
are right, and every further operation returns, changes the map as it should, and releases the
blocks of a file exactly when it has no name and no reference any more. -/
theorem directory_is_map (h : s₀.WellFormed) (hio : s₀.IoOk)
    (hrun : Run (guarded (fun _ x => x.1.OnNames) Sfs.Step) s₀ l s) :
    (∀ name k k', (s.view 1).Binds name k → (s.view 1).Binds name k' → k = k') ∧
    (∀ i, s.Live i → i ≠ 1 →
      (s.view i).links = {name | (s.view 1).dirMap name = some i}.ncard) ∧
    ∀ op : SfsOp, op.OnNames → op.Valid s.abs → ∃ res s', op.run s = .ok (.ok res, s') ∧
      MapStep (s.view 1).dirMap op res (s'.view 1).dirMap ∧
      ∀ {o b i}, o.file = some i → s.Ref o b →
        (s'.Live i → s'.Ref o b) ∧ (¬s'.Live i → ¬s'.InUse b) := by
  obtain ⟨hs, hio', -⟩ := wellFormed_of_run h hio (fun _ _ hx ht => absurd ht hx.1) hrun
  have hroot : ∀ t : Sfs, t.view 1 = t.abs.file 1 := fun t =>
    (abs_file (v := t.toVolume) live_root).symm
  rw [hroot s]
  refine ⟨fun name k k' => hs.wf.root.unique, fun i hi hi1 => ?_, fun op hop hv => ?_⟩
  · rw [hs.wf.root.ncard_names, ← hs.wf.links (hs.ok.abs_live.mpr hi) hi1, abs_file hi]
  · obtain ⟨res, s', hrun', hp⟩ := hs.exists_run hio' (fun ht => absurd ht hop.1) hv
    refine ⟨res, s', hrun', ?_, hp.releases hio' hop.2⟩
    rw [hroot s']
    refine (hp.refines hio').map hs.wf hv hop fun i hi => ?_
    rcases hi with hi | hi
    · exact hs.ok.ino_bounds (hs.ok.abs_live.mp hi)
    · exact hp.ok.ino_bounds (hp.ok.abs_live.mp hi)

/-- The new file is removed. -/
theorem directory_is_map_created : ∃ s res s',
    Run (guarded (fun _ x => x.1.OnNames) Sfs.Step) openFile [(createFile, .ok (), .vnode 4)] s ∧
    (SfsOp.remove 1 ⟨[102], by decide⟩).run s = .ok (.ok res, s') ∧
    MapStep (s.view 1).dirMap (.remove 1 ⟨[102], by decide⟩) res (s'.view 1).dirMap := by
  obtain ⟨s, -, hcreat, -, hroot, -⟩ := openFile_written
  have hrun : Run (guarded (fun _ x => x.1.OnNames) Sfs.Step) openFile _ s :=
    .snoc .start ⟨hcreat, not_false, not_false⟩
  obtain ⟨-, -, hnext⟩ := directory_is_map openFile_wellFormed (fun _ => rfl) hrun
  obtain ⟨res, s', hremove, hmap, -⟩ := hnext (.remove 1 ⟨[102], by decide⟩)
    ⟨not_false, not_false⟩ (hroot.trans_ne one_ne_zero)
  exact ⟨s, res, s', hrun, hremove, hmap⟩

/-! ## Failures of the device -/

/-- The requests to the device are counted from here. -/
def Sfs.counting (s : Sfs) : Sfs :=
  { s with calls := 0, idcalls := [] }

theorem Sfs.WellFormed.counting (h : s.WellFormed) : s.counting.WellFormed :=
  ⟨h.phys, h.wf, h.leaked⟩

theorem Sfs.WellFormed.noted (h : s.WellFormed) : s.counting.Noted s.io where
  io n := congrArg s.io (Nat.zero_add n).symm
  leaked := by simp [Sfs.counting, h.leaked]

/-- In every run on a volume of at most `2 ^ 23` blocks, what is not dirty is on disk. When the
volume is synced then and the disk is mounted again, the freemap, the directory and the named files
are the same. -/
theorem sync_durable (h : s₀.WellFormed) (hio : s₀.IoOk) (hn : s₀.sbNblocks ≤ 2 ^ 23)
    (hrun : Run Sfs.Step s₀ l s) :
    (∀ sv ∈ s.sfsVnodes, sv.svDirty = false → sv.svI = s.disk sv.svIno) ∧
    (s.sfsFreemapdirty = false → FreemapOnDisk s) ∧
    ∃ s', SfsOp.sync.run s = .ok (.ok (.ok (), .none), s') ∧
      ∀ t : Sfs, t.disk = s'.disk → t.dBlocks = s'.dBlocks → t.IoOk →
        t.memory 0 = true ∧ t.memory 1 = true → ∃ t', sfsDomount t = .ok (.ok (), t') ∧
          t'.sbNblocks = s.sbNblocks ∧
          (∀ b < s.sbNblocks, t'.sfsFreemap.Marked b ↔ s.sfsFreemap.Marked b) ∧
          (t'.view 1).dirMap = (s.view 1).dirMap ∧
          ∀ i, (s.view 1).Names i → t'.view i = s.view i := by
  obtain ⟨hs, hio', -⟩ := wellFormed_of_run_small h hio hn hrun
  have hclean : (Mounted.mk s (s.disk 0) false).CleanOnDisk :=
    Mounted.cleanOnDisk_of_ok hs.ok fun _ => rfl
  refine ⟨hclean.inodes, hclean.freemap, ?_⟩
  have hsync : sfsSync.Does (fun _ => False) s _ := sfsSync_does hs.ok hio'
  obtain ⟨r, s', hrun', rfl, hq, hmap, hino, hdisk⟩ := hsync.exists_ok
  refine ⟨s', Call.bind_of_ok (Call.attempt_of_ok hrun'), fun t ht hdev hio₁ hmem => ?_⟩
  have hmount : sfsDomount.Does (fun _ => False) t _ :=
    sfsDomount_same hq.ok hino hdisk ht hdev hio₁ hmem
  obtain ⟨r, t', hrun₁, rfl, hsame⟩ := hmount.exists_ok
  have hnb : s'.sbNblocks = s.sbNblocks := congrArg Fs.nblocks hq.abs
  have hview : ∀ i, s.Live i → t'.view i = s.view i := fun i hi => by
    rw [hsame.files, ← abs_file hi, ← hq.abs]
    refine (abs_file ?_).symm
    rwa [hq.live hs.ok]
  refine ⟨t', hrun₁, hsame.nblocks.trans hnb, fun b hb => ?_, ?_, fun i hi => ?_⟩
  · rw [hsame.freemap b ((hnb.symm ▸ hb).trans_le hq.ok.cover), hmap]
  · rw [hview 1 live_root]
  · exact hview i (Or.inr (Or.inr hi))

/-- The new file is there when the disk is mounted again. -/
theorem sync_durable_created : ∃ s s' t', Run Sfs.Step openFile
      [(writeFile, .ok (), .uio ⟨[], 2, 0, .write, []⟩), (createFile, .ok (), .vnode 4)] s ∧
    SfsOp.sync.run s = .ok (.ok (.ok (), .none), s') ∧
    sfsDomount { openFile with disk := s'.disk, dBlocks := s'.dBlocks } = .ok (.ok (), t') ∧
    (t'.view 1).dirMap = (s.view 1).dirMap ∧ ∀ i, (s.view 1).Names i → t'.view i = s.view i := by
  obtain ⟨s₁, s, hcreat, hwrite, -⟩ := openFile_written
  have hrun := (Run.start.snoc hcreat).snoc hwrite
  obtain ⟨-, -, s', hsync, hmount⟩ :=
    sync_durable openFile_wellFormed (fun _ => rfl) (by decide) hrun
  obtain ⟨t', hmount, -, -, hroot, hfiles⟩ := hmount
    { openFile with disk := s'.disk, dBlocks := s'.dBlocks } rfl rfl (fun _ => rfl) ⟨rfl, rfl⟩
  exact ⟨s, s', t', hrun, hsync, hmount, hroot, hfiles⟩

/-- The inode of the root directory has been overwritten on disk, and the one in memory is not
dirty : the directory is lost when the disk is mounted again. -/
theorem root_lost : largeVolume.WellFormed ∧ largeVolume.IoOk ∧
    ∃ l s, Run Sfs.Step largeVolume l s ∧
      (∃ sv ∈ s.sfsVnodes, sv.svDirty = false ∧ sv.svI ≠ s.disk sv.svIno) ∧
      ∃ s', SfsOp.sync.run s = .ok (.ok (.ok (), .none), s') ∧
        ∀ t r t', t.disk = s'.disk → t.dBlocks = s'.dBlocks → t.IoOk →
          t.memory 0 = true ∧ t.memory 1 = true → sfsDomount t = .ok (r, t') →
          t'.view 1 ≠ s.view 1 := by
  refine ⟨largeVolume_wellFormed, fun _ => rfl, ?_⟩
  obtain ⟨w, s, hwrite, hg⟩ := Call.exists_of_eval (m := overwrite.run) (s := largeVolume)
    (g := fun _ s => ((s.loaded 1).map fun sv => (sv.svDirty, sfiType sv.svI), sfiType (s.disk 1),
      (sfsSync s).toOption.bind fun r => r.1.toOption.map fun _ =>
        [r.2.dBlocks, getWord (r.2.disk 0) 0, getWord (r.2.disk 0) 1, sfiType (r.2.disk 1)]))
    (c := (some (false, sfsTypeDir), 0,
      some [2 ^ 23 + 4096, sfsMagic, 2 ^ 23 + 4096, 0])) (by decide +kernel)
  simp only [Prod.mk.injEq] at hg
  obtain ⟨hroot, hdisk, hsync⟩ := hg
  obtain ⟨sv, hsv, hd⟩ := Option.map_eq_some_iff.mp hroot
  obtain ⟨hclean, htype⟩ := Prod.mk.inj hd
  obtain ⟨hmem, hino⟩ := loaded_eq_some hsv
  obtain ⟨_, s', hrun, hg⟩ := Call.exists_of_eval (m := sfsSync) (g := fun _ s =>
    [s.dBlocks, getWord (s.disk 0) 0, getWord (s.disk 0) 1, sfiType (s.disk 1)]) hsync
  simp only [List.cons.injEq, and_true] at hg
  obtain ⟨hdev, hmagic, hblocks, hzero⟩ := hg
  refine ⟨_, s, Run.start.snoc (a := (overwrite, w)) ⟨overwrite_valid, hwrite⟩,
    ⟨sv, hmem, hclean, fun he => ?_⟩, s', Call.bind_of_ok (Call.attempt_of_ok hrun),
    fun t r t' ht htd hio hm hmount hview => ?_⟩
  · rw [he, hino, hdisk] at htype
    exact absurd htype (by decide)
  · have hdoes : sfsDomount.Does anyHalt t _ := sfsDomount_does hio hm (by rw [ht, hmagic])
      (by rw [ht, htd, hblocks, hdev]; decide)
    have hafter := (hdoes.of_ok hmount).2
    have hlost : (t'.view 1).type = 0 := by
      have hloaded : t'.inode 1 = t'.disk 1 := by
        unfold Volume.inode Volume.loaded
        rw [hafter.vnodes]
        rfl
      change sfiType (t'.inode 1) = 0
      rw [hloaded, hafter.disk, ht, hzero]
    rw [hview, Volume.view, inode_of_loaded hsv] at hlost
    exact absurd (htype.symm.trans hlost) (by decide)

end OS161
