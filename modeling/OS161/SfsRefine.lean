import OS161.SfsDurable
import OS161.SfsExtend

/-!
# SFS refines a file system of files and names

`FsStep` is what the operations are for : on the file system as its users see it (`Fs`), one
constructor for each operation that succeeds, transfers that may stop half-way, and the failure
that changes nothing. `SfsOp.run_does` is the connection to the code : from a volume that has its
invariant, an operation returns, whatever the device and `kmalloc` answer, and the volume has its
invariant again; if the device works, the step is one of `FsStep`. The exceptions are a failing
device in `sfs_itrunc`, which can leave an indirect block with freed blocks (`Torn`), and in the
error recovery of `sfs_rename`, which panics (`cannotRecover`).
-/

namespace OS161

open Sfs Volume

variable {ok : Halt → Prop} {s s' : Sfs} {i : ℕ} {u u' : Uio} {op : SfsOp} {res : SfsResult}
  {α : Type}

/-! ## The abstract file system -/

/-- A sound uio : 32 bits for the length, and the iovecs have the room. -/
structure Uio.Sound (u : Uio) (rw : UioRw) : Prop where
  rw : u.uioRw = rw
  resid : u.uioResid < 2 ^ 32
  room : u.uioResid ≤ u.uioIov.sum

/-- The caller has a reference to each vnode, and the uio is sound. The directories of a rename
are directories. -/
def SfsOp.Valid (a : Fs) : SfsOp → Prop
  | .getroot | .sync => True
  | .lookup dir _ | .creat dir _ _ | .remove dir _ => a.refs dir ≠ 0
  | .link dir _ file => a.refs dir ≠ 0 ∧ a.refs file ≠ 0
  | .rename d1 _ d2 _ => a.refs d1 ≠ 0 ∧ a.refs d2 ≠ 0 ∧ (a.file d2).type = sfsTypeDir
  | .read file u => a.refs file ≠ 0 ∧ u.Sound .read
  | .write file u => a.refs file ≠ 0 ∧ u.Sound .write
  | .truncate file _ => a.refs file ≠ 0
  | .incref v | .decref v | .fsync v => a.refs v ≠ 0

/-- A read of `k` bytes from the file `f`. -/
structure FileView.Reads (f : FileView) (u : Uio) (k : ℕ) (res : Except Errno Unit) (u' : Uio) :
    Prop where
  le : k ≤ (u.clip f.size).uioResid
  all : res = .ok () → k = (u.clip f.size).uioResid
  ok : f.size ≤ 143 * 512 → res = .ok ()
  offset : u'.uioOffset = u.uioOffset + k
  resid : u'.uioResid + k = u.uioResid
  bytes : u'.bytes = u.bytes ++ Uio.slice f.byte u.uioOffset k

/-- A write of `k` bytes to the file `f`, which makes it `f'`. Positions past 41 bits are taken
for others. -/
structure FileView.Writes (f : FileView) (u : Uio) (k : ℕ) (res : Except Errno Unit) (u' : Uio)
    (f' : FileView) : Prop where
  le : k ≤ u.uioResid
  all : res = .ok () → k = u.uioResid
  offset : u'.uioOffset = u.uioOffset + k
  resid : u'.uioResid + k = u.uioResid
  type : f'.type = f.type
  links : f'.links = f.links
  limit : u.Near → 0 < k → u.uioOffset + k ≤ 143 * 512
  content : u.Near → f' = f.write u.uioOffset k u.bytes

/-- The steps of the file system. -/
inductive FsStep (a : Fs) : SfsOp → SfsResult → Fs → Prop
  | fails (op : SfsOp) (e : Errno) : FsStep a op (.error e, .none) a
  | getroot : FsStep a .getroot (.ok (), .vnode 1) (a.addRef 1)
  | lookup {name : CString} {k i : ℕ} (hb : (a.file 1).BindsTo name k i) :
      FsStep a (.lookup 1 name) (.ok (), .vnode i) (a.addRef i)
  | creatOld {name : CString} {k i : ℕ} (hb : (a.file 1).BindsTo name k i) :
      FsStep a (.creat 1 name false) (.ok (), .vnode i) (a.addRef i)
  | creatNew {name : CString} {excl : Bool} {k i : ℕ} (hi : ¬a.Live i)
      (hk : (a.file 1).Takes name k) :
      FsStep a (.creat 1 name excl) (.ok (), .vnode i) ((a.addFile i).bindName k name i)
  | link {name : CString} {k i : ℕ} (hi : i ≠ 1) (hk : (a.file 1).Takes name k) :
      FsStep a (.link 1 name i) (.ok (), .none) (a.bindName k name i)
  | remove {name : CString} {k i : ℕ} (hb : (a.file 1).BindsTo name k i) :
      FsStep a (.remove 1 name) (.ok (), .none) (((a.addRef i).unbindSlot k i).decref i)
  | rename {n1 n2 : CString} {k i k' : ℕ} (hb : (a.file 1).BindsTo n1 k i)
      (hk : (a.file 1).Takes n2 k') : FsStep a (.rename 1 n1 1 n2) (.ok (), .none)
        ((((a.addRef i).bindName k' n2 i).unbindSlot k i).decref i)
  | read {i k : ℕ} {u u' : Uio} {res : Except Errno Unit} (hi : i ≠ 1)
      (h : (a.file i).Reads u k res u') : FsStep a (.read i u) (res, .uio u') a
  | write {i k : ℕ} {u u' : Uio} {res : Except Errno Unit} {f : FileView} (hi : i ≠ 1)
      (h : (a.file i).Writes u k res u' f) : FsStep a (.write i u) (res, .uio u') (a.setFile i f)
  | truncate {i : ℕ} {len : ℤ} {f : FileView} (hi : i ≠ 1) (ht : f.type = (a.file i).type)
      (hl : f.links = (a.file i).links)
      (hcut : 0 ≤ len → len ≤ 143 * 512 → f = (a.file i).cut len.toNat) :
      FsStep a (.truncate i len) (.ok (), .none) (a.setFile i f)
  | incref (i : ℕ) : FsStep a (.incref i) (.ok (), .none) (a.addRef i)
  | decref (i : ℕ) : FsStep a (.decref i) (.ok (), .none) (a.decref i)
  | fsync (i : ℕ) : FsStep a (.fsync i) (.ok (), .none) a
  | sync : FsStep a .sync (.ok (), .none) a

theorem Fs.decref_nblocks (a : Fs) (i : ℕ) : (a.decref i).nblocks = a.nblocks := by
  unfold Fs.decref
  split_ifs <;> rfl

theorem FsStep.nblocks {a a' : Fs} (h : FsStep a op res a') : a'.nblocks = a.nblocks := by
  cases h with
  | remove | rename | decref => exact Fs.decref_nblocks _ _
  | _ => rfl

/-! ## What is common to the operations -/

/-- The operation shortens a file. -/
def SfsOp.Truncates : SfsOp → Prop
  | .truncate _ _ => True
  | _ => False

/-- The operation moves data. -/
def SfsOp.Transfers : SfsOp → Prop
  | .read _ _ | .write _ _ => True
  | _ => False

/-- An operation has been performed. -/
structure Performed (op : SfsOp) (s : Sfs) (res : SfsResult) (s' : Sfs) : Prop extends
    Kept s s' where
  refines : s.IoOk → FsStep s.abs op res s'.abs
  releases : s.IoOk → ¬op.Truncates → Releases s.toVolume s'.toVolume

theorem does_returns {m : SfsM α} {ret : α → SfsRet} {P : Except Errno α → Sfs → Prop}
    {Q : SfsResult → Sfs → Prop} (h : m.Does ok s P)
    (hok : ∀ a s', P (.ok a) s' → Q (.ok (), ret a) s')
    (herr : ∀ e s', P (.error e) s' → Q (.error e, .none) s') :
    (returns m ret).Does ok s fun r s' => ∃ res, r = .ok res ∧ Q res s' := by
  refine h.attempt_bind fun r s' hr => ?_
  cases r with
  | ok a => exact ⟨_, rfl, hok a s' hr⟩
  | error e => exact ⟨_, rfl, herr e s' hr⟩

/-- An operation on a directory that is not one fails. -/
theorem does_onDir_file {m : SfsM α} {P : Except Errno α → Sfs → Prop}
    (hwf : s.abs.WF) (hi : s.abs.refs i ≠ 0) (hi1 : i ≠ 1) (hno : P (.error .ENOTDIR) s) :
    (onDir i m).Does ok s P := by
  obtain ⟨sv, hsv⟩ := Ok.exists_loaded hi
  have ht := type_of_live (live_of_loaded hsv)
  rw [inode_of_loaded hsv] at ht
  unfold onDir
  rw [Call.does_bind_of_ok (getVnode_eq hsv), ← ht,
    if_neg fun hd => hi1 (hwf.eq_one (Or.inr (Or.inl hi)) hd)]
  exact hno

theorem does_onFile_root {m : SfsM α} (hwf : s.abs.WF) (h1 : s.abs.refs 1 ≠ 0) :
    (onFile 1 m).Does ok s fun r s' => r = .error .EISDIR ∧ s' = s := by
  obtain ⟨sv, hsv⟩ := Ok.exists_loaded h1
  have ht := type_of_live (live_of_loaded hsv)
  rw [inode_of_loaded hsv, hwf.root.type] at ht
  unfold onFile
  rw [Call.does_bind_of_ok (getVnode_eq hsv), if_pos ht.symm]
  exact ⟨rfl, rfl⟩

theorem does_onDir_root {m : SfsM α} {P : Except Errno α → Sfs → Prop}
    (hwf : s.abs.WF) (h1 : s.abs.refs 1 ≠ 0) (hm : m.Does ok s P) : (onDir 1 m).Does ok s P := by
  obtain ⟨sv, hsv⟩ := Ok.exists_loaded h1
  have ht := type_of_live (live_of_loaded hsv)
  rw [inode_of_loaded hsv, hwf.root.type] at ht
  unfold onDir
  rwa [Call.does_bind_of_ok (getVnode_eq hsv), if_pos ht.symm]

/-- An operation that returns `0` and shows `a`. -/
theorem Sfs.Shows.performed {a : Fs} (hs : Shows s ∅ a s') (hwf' : a.WF)
    (hstep : FsStep s.abs op res a) : Performed op s res s' :=
  ⟨(hs.orderly hwf').toKept, fun _ => by rw [hs.abs]; exact hstep, fun _ _ => hs.grows.releases⟩

/-- An operation on names. -/
theorem NamePost.performed {m : SfsM α} {ret : α → SfsRet} {P : α → Fs → Prop}
    (hm : m.Does ok s (NamePost P s))
    (hP : ∀ x a, P x a → FsStep s.abs op (.ok (), ret x) a) :
    (returns m ret).Does ok s fun r s' => ∃ res, r = .ok res ∧ Performed op s res s' := by
  refine does_returns hm (fun x s' hx => ?_) fun e s' he => ?_
  · exact ⟨hx.1.toKept, fun hio => hP x _ (hx.2 hio), fun hio _ => hx.1.releases hio⟩
  · refine ⟨he.1.toKept, fun hio => ?_, fun hio _ => he.1.releases hio⟩
    rw [show s'.abs = s.abs from he.2 hio]
    exact .fails op e

/-- A file, and not the root. -/
theorem type_ne_dir (hwf : s.abs.WF) (hi : s.abs.refs i ≠ 0) (hi1 : i ≠ 1) :
    (s.abs.file i).type ≠ sfsTypeDir := by
  rw [hwf.file (Or.inr (Or.inl hi)) hi1]
  decide

theorem Trimmed.kept (h : Trimmed i s ∅ s') (hwf : s.abs.WF) (hi1 : i ≠ 1) : Kept s s' := by
  obtain ⟨f, habs, ht, hl⟩ := h.abs
  exact ⟨h.ok, habs ▸ hwf.setFile hi1 ht hl, h.next⟩

theorem Fs.setFile_inj {a : Fs} {f g : FileView} : a.setFile i f = a.setFile i g ↔ f = g := by
  refine ⟨fun h => ?_, fun h => by rw [h]⟩
  rw [← a.setFile_file i f, h, a.setFile_file]

/-- `sfs_itrunc`, and the contents that it leaves. -/
theorem sfsItrunc_full (len : ℤ) (h : s.Ok ∅) (hi : s.abs.refs i ≠ 0) (hi1 : i ≠ 1) :
    (sfsItrunc i len).Does ok s fun r s' => match r with
      | .ok _ => Trimmed i s ∅ s' ∧ (s.IoOk → 0 ≤ len → len ≤ 143 * 512 →
          s'.abs = s.abs.setFile i ((s.abs.file i).cut len.toNat))
      | .error _ => ¬s.IoOk ∧ (Trimmed i s ∅ s' ∨ Torn s s') := by
  obtain ⟨sv, hsv⟩ := Ok.exists_loaded hi
  refine (sfsItrunc_does len h hsv hi1).of_run fun r s' hrun hr => ?_
  cases r with
  | error e => exact ⟨hr.1, hr.2.imp_right And.right⟩
  | ok _ =>
    refine ⟨hr.1, fun hio h0 hle => ?_⟩
    obtain ⟨n, rfl⟩ := Int.eq_ofNat_of_zero_le h0
    have hdoes : (sfsItrunc i n).Does anyHalt s _ := sfsItrunc_cut h hi hi1 hio (by omega)
    exact (hdoes.of_ok hrun).2.2.2

/-! ## The operations -/

section Operations

variable (h : s.Ok ∅) (hwf : s.abs.WF) {dir : ℕ} {name : CString}

include h hwf

theorem notDir_performed {α : Type} {m : SfsM α} {ret : α → SfsRet} (hi : s.abs.refs i ≠ 0)
    (hi1 : i ≠ 1) : (returns (onDir i m) ret).Does ok s fun r s' => ∃ res, r = .ok res ∧
      Performed op s res s' :=
  does_returns (P := fun r s' => r = .error .ENOTDIR ∧ Quiet s ∅ s')
    (does_onDir_file hwf hi hi1 ⟨rfl, Quiet.refl h⟩) (fun _ _ hx => absurd hx.1 (by simp))
    fun e _ he => Shows.performed he.2 hwf (.fails _ e)

theorem getroot_performed : SfsOp.getroot.run.Does ok s fun r s' => ∃ res, r = .ok res ∧
    Performed .getroot s res s' := by
  refine NamePost.performed (sfsGetroot_does h hwf) ?_
  rintro i a ⟨rfl, rfl⟩
  exact .getroot

theorem lookup_performed (hd : s.abs.refs dir ≠ 0) :
    (SfsOp.lookup dir name).run.Does ok s fun r s' => ∃ res, r = .ok res ∧
      Performed (.lookup dir name) s res s' := by
  rcases eq_or_ne dir 1 with rfl | hne
  · refine NamePost.performed (does_onDir_root hwf hd (sfsLookup_does h hwf hd)) ?_
    rintro i a ⟨k, hb, rfl⟩
    exact .lookup hb
  · exact notDir_performed h hwf hd hne

theorem creat_performed {excl : Bool} (hd : s.abs.refs dir ≠ 0) :
    (SfsOp.creat dir name excl).run.Does ok s fun r s' => ∃ res, r = .ok res ∧
      Performed (.creat dir name excl) s res s' := by
  rcases eq_or_ne dir 1 with rfl | hne
  · refine NamePost.performed (does_onDir_root hwf hd (sfsCreat_does excl h hwf hd)) ?_
    rintro i a (⟨rfl, ⟨k, hb⟩, rfl⟩ | ⟨hi, k, hk, rfl⟩)
    · exact .creatOld hb
    · exact .creatNew hi hk
  · exact notDir_performed h hwf hd hne

theorem link_performed {file : ℕ} (hd : s.abs.refs dir ≠ 0)
    (hf : s.abs.refs file ≠ 0) : (SfsOp.link dir name file).run.Does ok s fun r s' =>
      ∃ res, r = .ok res ∧ Performed (.link dir name file) s res s' := by
  rcases eq_or_ne dir 1 with rfl | hne
  · refine NamePost.performed (does_onDir_root hwf hd (sfsLink_does h hwf hd hf)) ?_
    rintro _ a ⟨hi, k, hk, rfl⟩
    exact .link hi hk
  · exact notDir_performed h hwf hd hne

theorem remove_performed (hd : s.abs.refs dir ≠ 0) :
    (SfsOp.remove dir name).run.Does ok s fun r s' => ∃ res, r = .ok res ∧
      Performed (.remove dir name) s res s' := by
  rcases eq_or_ne dir 1 with rfl | hne
  · refine NamePost.performed (does_onDir_root hwf hd (sfsRemove_does h hwf hd)) ?_
    rintro _ a ⟨k, i, hb, rfl⟩
    exact .remove hb
  · exact notDir_performed h hwf hd hne

theorem rename_performed {d1 d2 : ℕ} {n1 n2 : CString} (hok : ¬s.IoOk → ok cannotRecover)
    (hd1 : s.abs.refs d1 ≠ 0) (hd2 : d2 = 1) : (SfsOp.rename d1 n1 d2 n2).run.Does ok s
      fun r s' => ∃ res, r = .ok res ∧ Performed (.rename d1 n1 d2 n2) s res s' := by
  subst hd2
  rcases eq_or_ne d1 1 with rfl | hne
  · refine NamePost.performed (does_onDir_root hwf hd1 (sfsRename_does hok h hwf hd1)) ?_
    rintro _ a ⟨k, i, k', hb, hk, rfl⟩
    exact .rename hb hk
  · exact notDir_performed h hwf hd1 hne

theorem incref_performed (hi : s.abs.refs i ≠ 0) : (SfsOp.incref i).run.Does ok s fun r s' =>
    ∃ res, r = .ok res ∧ Performed (.incref i) s res s' := by
  obtain ⟨sv, hsv⟩ := Ok.exists_loaded hi
  refine does_returns (vopIncref_does h hsv) (fun _ s' hx => ?_) fun e s' he => ?_
  · exact hx.2.performed (hwf.addRef (Or.inr (Or.inl hi))) (.incref i)
  · exact absurd he.1 (by simp)

theorem decref_performed (hi : s.abs.refs i ≠ 0) : (SfsOp.decref i).run.Does ok s fun r s' =>
    ∃ res, r = .ok res ∧ Performed (.decref i) s res s' := by
  refine does_returns (vopDecref_after h (Quiet.refl h) hwf hi) (fun _ s' hx => ?_)
    fun e s' he => ?_
  · obtain ⟨-, hord, habs⟩ := hx
    refine ⟨hord.toKept, fun hio => ?_, fun hio _ => hord.releases hio⟩
    rw [habs hio]
    exact .decref i
  · exact absurd he.1 (by simp)

theorem fsync_performed (hi : s.abs.refs i ≠ 0) : (SfsOp.fsync i).run.Does ok s fun r s' =>
    ∃ res, r = .ok res ∧ Performed (.fsync i) s res s' :=
  does_returns (sfsFsync_does h hi) (fun _ _ hq => Shows.performed hq hwf (.fsync i))
    fun e _ hq => Shows.performed hq hwf (.fails _ e)

theorem sync_performed : SfsOp.sync.run.Does ok s fun r s' => ∃ res, r = .ok res ∧
    Performed .sync s res s' :=
  does_returns (sfsSync_quiet h) (fun _ _ hq => Shows.performed hq hwf .sync)
    fun e _ hq => Shows.performed hq hwf (.fails _ e)

theorem read_performed (hn : s.sbNblocks ≤ 2 ^ 23) (hi : s.abs.refs i ≠ 0)
    (hu : u.Sound .read) : (SfsOp.read i u).run.Does ok s fun r s' => ∃ res, r = .ok res ∧
      Performed (.read i u) s res s' := by
  rcases eq_or_ne i 1 with rfl | hi1
  · refine (does_onFile_root hwf hi (m := sfsRdwr 1 .read u)).attempt_bind ?_
    rintro r s' ⟨rfl, rfl⟩
    exact ⟨_, rfl, Shows.performed (Quiet.refl h) hwf (.fails _ _)⟩
  · refine (read_does ⟨h, hi, hi1, hn, hu.resid, hu.room⟩ (type_ne_dir hwf hi hi1) hu.rw).mono ?_
    rintro r s' ⟨res, u', rfl, k, hk, hall, hok, hr⟩
    obtain ⟨f, hs, ht, hl, hf⟩ := hr.content
    refine ⟨_, rfl, (hs.orderly (hwf.setFile hi1 ht hl)).toKept, fun hio => ?_,
      fun _ _ => hs.grows.releases⟩
    obtain ⟨rfl, hbytes⟩ := hf hio
    rw [hs.abs, Fs.setFile_self]
    exact .read hi1 ⟨hk, hall, hok hio, hr.offset, hr.resid, hbytes⟩

theorem write_performed (hn : s.sbNblocks ≤ 2 ^ 23) (hi : s.abs.refs i ≠ 0)
    (hu : u.Sound .write) : (SfsOp.write i u).run.Does ok s fun r s' => ∃ res, r = .ok res ∧
      Performed (.write i u) s res s' := by
  rcases eq_or_ne i 1 with rfl | hi1
  · refine (does_onFile_root hwf hi (m := sfsRdwr 1 .write u)).attempt_bind ?_
    rintro r s' ⟨rfl, rfl⟩
    exact ⟨_, rfl, Shows.performed (Quiet.refl h) hwf (.fails _ _)⟩
  · refine (write_does ⟨h, hi, hi1, hn, hu.resid, hu.room⟩ (type_ne_dir hwf hi hi1) hu.rw).mono ?_
    rintro r s' ⟨res, u', rfl, k, hk, hall, hw⟩
    obtain ⟨f, hs, ht, hl, hf⟩ := hw.content
    refine ⟨_, rfl, (hs.orderly (hwf.setFile hi1 ht hl)).toKept, fun hio => ?_,
      fun _ _ => hs.grows.releases⟩
    rw [hs.abs]
    exact .write hi1 ⟨hk, hall, hw.offset, hw.resid, ht, hl, hw.limit, hf hio⟩

/-- A truncation may leave an indirect block torn when the device fails. -/
theorem truncate_performed {len : ℤ} (hi : s.abs.refs i ≠ 0) :
    (SfsOp.truncate i len).run.Does ok s fun r s' => ∃ res, r = .ok res ∧
      (Performed (.truncate i len) s res s' ∨ ¬s.IoOk ∧ Torn s s') := by
  rcases eq_or_ne i 1 with rfl | hi1
  · refine (does_onFile_root hwf hi (m := sfsItrunc 1 len)).attempt_bind ?_
    rintro r s' ⟨rfl, rfl⟩
    exact ⟨_, rfl, Or.inl (Shows.performed (Quiet.refl h) hwf (.fails _ _))⟩
  · refine does_returns ((does_onFile hi (type_ne_dir hwf hi hi1)).mpr
      (sfsItrunc_full len h hi hi1)) (fun _ s' hx => Or.inl ?_) fun e s' he => ?_
    · obtain ⟨ht, hcut⟩ := hx
      obtain ⟨f, habs, hty, hl⟩ := ht.abs
      refine ⟨ht.kept hwf hi1, fun hio => ?_, fun _ hno => absurd trivial hno⟩
      rw [habs]
      exact .truncate hi1 hty hl fun h0 hle => Fs.setFile_inj.mp (habs.symm.trans (hcut hio h0 hle))
    · obtain ⟨hio, ht | ht⟩ := he
      · exact Or.inl ⟨ht.kept hwf hi1, fun hok => absurd hok hio, fun _ hno => absurd trivial hno⟩
      · exact Or.inr ⟨hio, ht⟩

/-- An operation, from a volume that has its invariant. -/
theorem SfsOp.run_does (hok : ¬s.IoOk → ok cannotRecover)
    (hn : op.Transfers → s.sbNblocks ≤ 2 ^ 23) (hv : op.Valid s.abs) :
    op.run.Does ok s fun r s' => ∃ res, r = .ok res ∧
      (Performed op s res s' ∨ ¬s.IoOk ∧ op.Truncates ∧ Torn s s') := by
  have hleft : ∀ {op : SfsOp}, (op.run.Does ok s fun r s' => ∃ res, r = .ok res ∧
      Performed op s res s') → op.run.Does ok s fun r s' => ∃ res, r = .ok res ∧
        (Performed op s res s' ∨ ¬s.IoOk ∧ op.Truncates ∧ Torn s s') :=
    fun hdoes => hdoes.mono fun r s' ⟨res, hr, hp⟩ => ⟨res, hr, Or.inl hp⟩
  cases op with
  | getroot => exact hleft (getroot_performed h hwf)
  | lookup dir name => exact hleft (lookup_performed h hwf hv)
  | creat dir name excl => exact hleft (creat_performed h hwf hv)
  | link dir name file => exact hleft (link_performed h hwf hv.1 hv.2)
  | remove dir name => exact hleft (remove_performed h hwf hv)
  | rename d1 n1 d2 n2 =>
    exact hleft (rename_performed h hwf hok hv.1 (hwf.eq_one (Or.inr (Or.inl hv.2.1)) hv.2.2))
  | read file u => exact hleft (read_performed h hwf (hn trivial) hv.1 hv.2)
  | write file u => exact hleft (write_performed h hwf (hn trivial) hv.1 hv.2)
  | truncate file len =>
    exact (truncate_performed h hwf hv).mono fun r s' ⟨res, hr, hp⟩ =>
      ⟨res, hr, hp.imp_right fun ht => ⟨ht.1, trivial, ht.2⟩⟩
  | incref v => exact hleft (incref_performed h hwf hv)
  | decref v => exact hleft (decref_performed h hwf hv)
  | fsync v => exact hleft (fsync_performed h hwf hv)
  | sync => exact hleft (sync_performed h hwf)

end Operations

end OS161
