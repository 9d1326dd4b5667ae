import OS161.SfsRuns

/-!
# Files are byte arrays

What the writes of a run have put into the files, and that the reads find it there.

A run is told as a list of events (`FileEvent`), newest first : what each write has written and
which files were created. `lastByte` and `lastSize` are what a file must contain after them : the
bytes written last, those from before the run, or zeros. `FsStep.tells` is one step : a live file
has the contents that its event gives it (`Tells`). `files_are_byte_arrays` is about whole runs of
operations other than truncations : the files have these contents, a read hands them out up to the
end of the file, and a write changes the bytes that it moved and no others.
-/

namespace OS161

open Sfs Volume

/-! ## Events -/

/-- What an operation has done to the contents of the files. -/
inductive FileEvent
  | wrote (i off : ℕ) (data : List UInt8)
  | created (i : ℕ)
  | other

namespace FileEvent

open Classical in
/-- The event of an operation with this result. -/
noncomputable def of (a : Fs) : SfsOp → SfsResult → FileEvent
  | .write i u, (_, .uio u') =>
    .wrote i u.uioOffset (Uio.slice (fun x => u.bytes.getD x 0) 0 (u.uioResid - u'.uioResid))
  | .creat _ _ _, (_, .vnode i) => if a.Live i then .other else .created i
  | _, _ => .other

/-- The size of file `i`, which was `old`. -/
def size (i old : ℕ) : FileEvent → ℕ
  | .wrote j off data => if j = i ∧ data ≠ [] then max old (off + data.length) else old
  | .created j => if j = i then 0 else old
  | .other => old

/-- The byte at `pos` of file `i`, which was `old`. -/
def byte (i pos : ℕ) (old : UInt8) : FileEvent → UInt8
  | .wrote j off data =>
    if j = i ∧ off ≤ pos ∧ pos < off + data.length then data.getD (pos - off) 0 else old
  | .created j => if j = i then 0 else old
  | .other => old

/-- The bytes are in the part of a file that `sfs_bmap` can reach. -/
def Fits : FileEvent → Prop
  | .wrote _ off data => data ≠ [] → off + data.length ≤ 143 * 512
  | _ => True

theorem Fits.size_le {e : FileEvent} {i old : ℕ} (h : e.Fits) (hold : old ≤ 143 * 512) :
    e.size i old ≤ 143 * 512 := by
  cases e with
  | wrote j off data =>
    unfold size
    dsimp only
    split_ifs with hw
    · exact max_le hold (h hw.2)
    · exact hold
  | created j =>
    unfold size
    dsimp only
    split_ifs
    · exact Nat.zero_le _
    · exact hold
  | other => exact hold

theorem of_write (a : Fs) (i : ℕ) (u u' : Uio) (r : Except Errno Unit) :
    of a (.write i u) (r, .uio u') = .wrote i u.uioOffset
      (Uio.slice (fun x => u.bytes.getD x 0) 0 (u.uioResid - u'.uioResid)) :=
  rfl

theorem of_creat_of_live {a : Fs} {i dir : ℕ} {name : CString} {excl : Bool}
    {r : Except Errno Unit} (hi : a.Live i) : of a (.creat dir name excl) (r, .vnode i) = .other :=
  if_pos hi

theorem of_creat_of_not_live {a : Fs} {i dir : ℕ} {name : CString} {excl : Bool}
    {r : Except Errno Unit} (hi : ¬a.Live i) :
    of a (.creat dir name excl) (r, .vnode i) = .created i :=
  if_neg hi

variable {i j off pos old : ℕ} {b : UInt8} {data : List UInt8}

@[simp] theorem size_wrote_self : (wrote i off data).size i old =
    if data ≠ [] then max old (off + data.length) else old := by
  simp [size]

@[simp] theorem byte_wrote_self : (wrote i off data).byte i pos b =
    if off ≤ pos ∧ pos < off + data.length then data.getD (pos - off) 0 else b := by
  simp [byte]

theorem size_wrote_of_ne (h : i ≠ j) : (wrote i off data).size j old = old :=
  if_neg fun hc => h hc.1

theorem byte_wrote_of_ne (h : i ≠ j) : (wrote i off data).byte j pos b = b :=
  if_neg fun hc => h hc.1

@[simp] theorem size_created_self : (created i).size i old = 0 :=
  if_pos rfl

@[simp] theorem byte_created_self : (created i).byte i pos b = 0 :=
  if_pos rfl

theorem size_created_of_ne (h : i ≠ j) : (created i).size j old = old :=
  if_neg h

theorem byte_created_of_ne (h : i ≠ j) : (created i).byte j pos b = b :=
  if_neg h

end FileEvent

/-- The size of file `i` after the events. -/
def lastSize (s₀ : Sfs) (l : List FileEvent) (i : ℕ) : ℕ :=
  l.foldr (fun e old => e.size i old) (s₀.view i).size

/-- The byte at `pos` of file `i` after the events : the last one written there, the one from
before, or `0`. -/
def lastByte (s₀ : Sfs) (l : List FileEvent) (i pos : ℕ) : UInt8 :=
  l.foldr (fun e old => e.byte i pos old)
    (if pos < (s₀.view i).size then (s₀.view i).byte pos else 0)

/-- The positions of the transfers are below `2 ^ 41 - 2 ^ 32`. -/
def SfsOp.Within : SfsOp → Prop
  | .read _ u | .write _ u => u.uioOffset < 2 ^ 41 - 2 ^ 32
  | _ => True

/-- An operation that does not truncate, and its event. -/
def FileStep (s : Sfs) (e : FileEvent) (s' : Sfs) : Prop :=
  ∃ op res, Sfs.Step s (op, res) s' ∧ ¬op.Truncates ∧ op.Within ∧ e = FileEvent.of s.abs op res

/-! ## Contents that stay -/

section Stays

variable {a a' a'' : Fs} {i j k : ℕ} {name : CString}

/-- The live files but the directory were live, and have the contents they had. -/
def Fs.Stays (a a' : Fs) : Prop :=
  ∀ j, j ≠ 1 → a'.Live j → a.Live j ∧ (a'.file j).size = (a.file j).size ∧
    (a'.file j).byte = (a.file j).byte

namespace Fs.Stays

theorem refl (a : Fs) : a.Stays a :=
  fun _ _ hj => ⟨hj, rfl, rfl⟩

theorem trans (h : a.Stays a') (h' : a'.Stays a'') : a.Stays a'' := fun j hj1 hj => by
  obtain ⟨hj', hs', hb'⟩ := h' j hj1 hj
  obtain ⟨hj, hs, hb⟩ := h j hj1 hj'
  exact ⟨hj, hs'.trans hs, hb'.trans hb⟩

theorem setRefs (hi : a.Live i) (n : ℕ) : a.Stays (a.setRefs i n) :=
  fun _ _ hj => ⟨hi.of_setRefs hj, rfl, rfl⟩

theorem decref (hwf : a.WF) (hi : a.Live i) : a.Stays (a.decref i) := by
  unfold Fs.decref
  split_ifs with hr hl
  · exact setRefs hi _
  · intro j hj1 hj
    have hi1 : i ≠ 1 := by
      rintro rfl
      exact hwf.root.links hl
    obtain ⟨hj, hji⟩ := hj.of_gone hi1 ((hwf.links_eq_zero hi hi1).mp hl)
    have hfile : (a.setFile i FileView.none).file j = a.file j := a.setFile_file_ne hji _
    exact ⟨hj, congrArg FileView.size hfile, congrArg FileView.byte hfile⟩
  · exact setRefs hi _

/-- A slot of the directory is written, and links are counted. -/
theorem setSlot {d : DiskBlock} {n : ℕ} (hi1 : i ≠ 1) (hr : a.refs i ≠ 0)
    (hnames : ∀ j, j ≠ i → (((a.file 1).setEntry k d).Names j ↔ (a.file 1).Names j)) :
    a.Stays ((a.setSlot k d).setLinks i n) := fun j hj1 hj => by
  refine ⟨hj.of_setSlot hi1 hr hnames, ?_⟩
  by_cases hji : j = i
  · subst hji
    rw [Fs.setLinks_file, Fs.setSlot_file_ne hj1]
    exact ⟨rfl, rfl⟩
  · rw [Fs.setLinks_file_ne hji, Fs.setSlot_file_ne hj1]
    exact ⟨rfl, rfl⟩

theorem bindName (hi1 : i ≠ 1) (hr : a.refs i ≠ 0) (hi : i ≠ 0 ∧ i < 2 ^ 32)
    (hk : (a.file 1).Takes name k) : a.Stays (a.bindName k name i) := by
  refine setSlot hi1 hr fun j hj => ?_
  rw [hk.free.names_iff (sfdIno_direntry hi.2 name.bytes) hi.1]
  exact or_iff_left hj

theorem unbindSlot (hi1 : i ≠ 1) (hr : a.refs i ≠ 0) (hk : (a.file 1).NamedAt k i) :
    a.Stays (a.unbindSlot k i) := by
  have hd : sfdIno (direntry 0 []) = 0 := sfdIno_direntry (by decide) []
  exact setSlot hi1 hr fun j hj => FileView.names_unlink hk.1 hd fun hj' => hj (hj'.trans hk.2.2)

end Fs.Stays

end Stays

/-! ## One step -/

section Step

variable {a a' : Fs} {i j : ℕ} {op : SfsOp} {res : SfsResult} {e : FileEvent}

/-- The event tells the contents of the live files. -/
def Tells (a : Fs) (e : FileEvent) (a' : Fs) : Prop :=
  ∀ j, j ≠ 1 → a'.Live j → (a.Live j ∨ e = .created j) ∧
    (a'.file j).size = e.size j (a.file j).size ∧
    ∀ pos, (a'.file j).byte pos = e.byte j pos ((a.file j).byte pos)

theorem Fs.Stays.tells (h : a.Stays a') : Tells a .other a' := fun j hj1 hj => by
  obtain ⟨hj, hs, hb⟩ := h j hj1 hj
  exact ⟨Or.inl hj, hs, fun pos => congrFun hb pos⟩

/-- A new file, and what is done with its name. -/
theorem tells_created (hi1 : i ≠ 1) (h : (a.addFile i).Stays a') : Tells a (.created i) a' := by
  intro j hj1 hj
  obtain ⟨hj, hs, hb⟩ := h j hj1 hj
  rw [hs, hb]
  by_cases hij : i = j
  · subst hij
    rw [Fs.addFile_file]
    exact ⟨Or.inr rfl, by simp, by simp⟩
  · rw [Fs.addFile_file_ne (Ne.symm hij)]
    exact ⟨Or.inl (hj.of_addFile hi1 (Ne.symm hij)), (FileEvent.size_created_of_ne hij).symm,
      fun pos => (FileEvent.byte_created_of_ne hij).symm⟩

theorem tells_wrote {off k : ℕ} {data : List UInt8} (hi1 : i ≠ 1) :
    Tells a (.wrote i off (Uio.slice (fun x => data.getD x 0) 0 k))
      (a.setFile i ((a.file i).write off k data)) := by
  intro j _ hj
  have hlive : a.Live j := by
    unfold Fs.Live at hj
    rwa [a.setFile_file_ne hi1.symm] at hj
  have hnil : Uio.slice (fun x => data.getD x 0) 0 k ≠ [] ↔ ¬k = 0 := by
    rw [ne_eq, ← List.length_eq_zero_iff, Uio.length_slice]
  by_cases hij : i = j
  · subst hij
    rw [a.setFile_file]
    refine ⟨Or.inl hlive, ?_, fun pos => ?_⟩
    · simp only [FileView.write, FileEvent.size_wrote_self, Uio.length_slice, hnil, ite_not]
    · simp only [FileView.write, moveBytes, FileEvent.byte_wrote_self, Uio.length_slice,
        Nat.zero_add]
      split_ifs with hpos
      · rw [Uio.getD_slice (by omega), Nat.zero_add]
      · rfl
  · rw [a.setFile_file_ne (Ne.symm hij)]
    exact ⟨Or.inl hlive, (FileEvent.size_wrote_of_ne hij).symm,
      fun pos => (FileEvent.byte_wrote_of_ne hij).symm⟩

theorem Uio.near_of_within {u : Uio} (hu : u.uioResid < 2 ^ 32)
    (hoff : u.uioOffset < 2 ^ 41 - 2 ^ 32) : u.Near := by
  unfold Uio.Near
  omega

/-- The event of an operation tells what it did. -/
theorem FsStep.tells (h : FsStep a op res a') (hwf : a.WF) (hv : op.Valid a)
    (hno : ¬op.Truncates) (hin : op.Within)
    (hino : ∀ i, a.Live i ∨ a'.Live i → i ≠ 0 ∧ i < 2 ^ 32) :
    Tells a (FileEvent.of a op res) a' := by
  have hnamed : ∀ {name : CString} {k i : ℕ}, (a.file 1).BindsTo name k i → a.Live i ∧ i ≠ 1 :=
    fun hb => ⟨Or.inr (Or.inr ⟨_, hb.namedAt⟩), hwf.named ⟨_, hb.namedAt⟩⟩
  cases h with
  | fails op e =>
    have hother : FileEvent.of a op (.error e, .none) = .other := by
      cases op <;> rfl
    rw [hother]
    exact (Fs.Stays.refl a).tells
  | getroot => exact (Fs.Stays.setRefs (Or.inl rfl) _).tells
  | lookup hb => exact (Fs.Stays.setRefs (hnamed hb).1 _).tells
  | creatOld hb =>
    rw [FileEvent.of_creat_of_live (hnamed hb).1]
    exact (Fs.Stays.setRefs (hnamed hb).1 _).tells
  | @creatNew name excl k i hi hk =>
    have hi1 : i ≠ 1 := fun h1 => hi (Or.inl h1)
    have hr : (a.addFile i).refs i ≠ 0 := by
      rw [show (a.addFile i).refs i = 1 from Fs.setRefs_refs _ i 1]
      exact one_ne_zero
    rw [FileEvent.of_creat_of_not_live hi]
    refine tells_created hi1 (Fs.Stays.bindName hi1 hr (hino i (Or.inr (Or.inr (Or.inl hr)))) ?_)
    rw [Fs.addFile_file_ne hi1.symm]
    exact hk
  | @link name k i hi hk =>
    exact (Fs.Stays.bindName hi hv.2 (hino i (Or.inl (Or.inr (Or.inl hv.2)))) hk).tells
  | @remove name k i hb =>
    obtain ⟨hlive, hi1⟩ := hnamed hb
    have hr := a.addRef_refs_ne_zero i
    have hwf' := (hwf.addRef hlive).unbindSlot hr hb.namedAt
    exact ((Fs.Stays.setRefs hlive _).trans ((Fs.Stays.unbindSlot hi1 hr hb.namedAt).trans
      (.decref hwf' (Or.inr (Or.inl hr))))).tells
  | @rename n1 n2 k i k' hb hk =>
    obtain ⟨hlive, hi1⟩ := hnamed hb
    have hi := hino i (Or.inl hlive)
    have hr := a.addRef_refs_ne_zero i
    have hwf' := (hwf.addRef hlive).bindName hi1 hr hi.1 hi.2 hk.free hk.unbound hk.length_le
    have hb' := hk.bindsTo_bindName hi1 hb
    have hr' : ((a.addRef i).bindName k' n2 i).refs i ≠ 0 := hr
    exact ((Fs.Stays.setRefs hlive _).trans ((Fs.Stays.bindName hi1 hr hi hk).trans
      ((Fs.Stays.unbindSlot hi1 hr' hb'.namedAt).trans
        (.decref (hwf'.unbindSlot hr' hb'.namedAt) (Or.inr (Or.inl hr)))))).tells
  | read hi hr => exact (Fs.Stays.refl a).tells
  | @write i k u u' res f hi hw =>
    rw [hw.content (Uio.near_of_within hv.2.resid hin)]
    have hk : u.uioResid - u'.uioResid = k := by
      have := hw.resid
      omega
    rw [FileEvent.of_write, hk]
    exact tells_wrote hi
  | truncate => exact absurd trivial hno
  | incref i => exact (Fs.Stays.setRefs (Or.inr (Or.inl hv)) _).tells
  | decref i => exact (Fs.Stays.decref hwf (Or.inr (Or.inl hv))).tells
  | fsync i | sync => exact (Fs.Stays.refl a).tells

theorem FsStep.fits (h : FsStep a op res a') (hv : op.Valid a) (hin : op.Within) :
    (FileEvent.of a op res).Fits := by
  cases h with
  | fails op e => cases op <;> trivial
  | creatOld | creatNew =>
    unfold FileEvent.of
    dsimp only
    split_ifs <;> trivial
  | @write i k u u' res f hi hw =>
    have hk : u.uioResid - u'.uioResid = k := by
      have := hw.resid
      omega
    have hlim := hw.limit (Uio.near_of_within hv.2.resid hin)
    rw [FileEvent.of_write, hk]
    intro hne
    rw [← List.length_pos_iff, Uio.length_slice] at hne
    rw [Uio.length_slice]
    exact hlim hne
  | _ => trivial

end Step

/-! ## Runs -/

section Runs

variable {s₀ s s' : Sfs} {l : List FileEvent} {e : FileEvent} {i : ℕ} {u : Uio}

/-- The files have the contents that the events tell. -/
structure Tracks (s₀ : Sfs) (l : List FileEvent) (s : Sfs) : Prop where
  wellFormed : s.WellFormed
  io : s.IoOk
  nblocks : s.sbNblocks ≤ 2 ^ 23
  size : ∀ j, j ≠ 1 → s.abs.Live j → (s.abs.file j).size = lastSize s₀ l j
  byte : ∀ j, j ≠ 1 → s.abs.Live j → ∀ pos, (s.abs.file j).byte pos = lastByte s₀ l j pos
  size_le : ∀ j, j ≠ 1 → s.abs.Live j → (s.abs.file j).size ≤ 143 * 512

/-- A file that `sfs_bmap` can reach, with nothing past its end. -/
structure FileView.Sound (f : FileView) : Prop where
  size_le : f.size ≤ 143 * 512
  past : ∀ pos, f.size ≤ pos → f.byte pos = 0

theorem Tracks.start (h : s₀.WellFormed) (hio : s₀.IoOk) (hn : s₀.sbNblocks ≤ 2 ^ 23)
    (hfiles : ∀ i, i ≠ 1 → s₀.Live i → (s₀.view i).Sound) : Tracks s₀ [] s₀ := by
  refine ⟨h, hio, hn, fun j hj1 hj => ?_, fun j hj1 hj pos => ?_, fun j hj1 hj => ?_⟩ <;>
    rw [h.ok.abs_live] at hj <;> rw [abs_file hj]
  · rfl
  · unfold lastByte
    split_ifs with hpos
    · rfl
    · exact (hfiles j hj1 hj).past pos (not_lt.mp hpos)
  · exact (hfiles j hj1 hj).size_le

/-- One more operation. -/
theorem Tracks.step (h : Tracks s₀ l s) (hs : FileStep s e s') : Tracks s₀ (e :: l) s' := by
  obtain ⟨op, res, hstep, hno, hin, rfl⟩ := hs
  have hdoes : op.run.Does anyHalt s _ := h.wellFormed.run_does h.io (fun _ => h.nblocks) hstep.1
  obtain ⟨res', hr, hp, hwf', hio', hnb'⟩ := hdoes.of_ok hstep.2
  obtain rfl : res = res' := Except.ok.inj hr
  have hfs := hp.refines h.io
  have htells := hfs.tells h.wellFormed.wf hstep.1 hno hin fun i hi => by
    rcases hi with hi | hi
    · exact h.wellFormed.ok.ino_bounds (h.wellFormed.ok.abs_live.mp hi)
    · exact hp.ok.ino_bounds (hp.ok.abs_live.mp hi)
  have hfits := hfs.fits hstep.1 hin
  refine ⟨hwf', hio', hnb'.trans_le h.nblocks, fun j hj1 hj => ?_, fun j hj1 hj pos => ?_,
    fun j hj1 hj => ?_⟩ <;> obtain ⟨hlive, hsize, hbyte⟩ := htells j hj1 hj
  · rw [hsize]
    change _ = (FileEvent.of s.abs op res).size j (lastSize s₀ l j)
    rcases hlive with hlive | hnew
    · rw [h.size j hj1 hlive]
    · simp [hnew]
  · rw [hbyte]
    change _ = (FileEvent.of s.abs op res).byte j pos (lastByte s₀ l j pos)
    rcases hlive with hlive | hnew
    · rw [h.byte j hj1 hlive]
    · simp [hnew]
  · rw [hsize]
    rcases hlive with hlive | hnew
    · exact hfits.size_le (h.size_le j hj1 hlive)
    · simp [hnew]

/-- A file other than `i` after a transfer of file `i`. -/
theorem Sfs.Shows.view_eq {f : FileView} {j : ℕ} (hs : Shows s ∅ (s.abs.setFile i f) s')
    (hok : s.Ok ∅) (hi1 : i ≠ 1) (hj : s.Live j) :
    s'.view j = if j = i then f else s.view j := by
  have hj' : s'.Live j := by
    have hlive := hok.abs_live.mpr hj
    rw [← hs.ok.abs_live, hs.abs]
    unfold Fs.Live
    rwa [Fs.setFile_file_ne _ hi1.symm]
  rw [← abs_file hj', hs.abs]
  split_ifs with hji
  · rw [hji, Fs.setFile_file]
  · rw [Fs.setFile_file_ne _ hji, abs_file hj]

/-- A read hands out what was written. -/
theorem Tracks.read (h : Tracks s₀ l s) (hi1 : i ≠ 1) (hv : (SfsOp.read i u).Valid s.abs) :
    ∃ u' s' k, (SfsOp.read i u).run s = .ok (.ok (.ok (), .uio u'), s') ∧
      k = min u.uioResid (lastSize s₀ l i - u.uioOffset) ∧ u'.uioResid + k = u.uioResid ∧
      u'.bytes = u.bytes ++ Uio.slice (lastByte s₀ l i) u.uioOffset k ∧
      ∀ j, s.Live j → s'.view j = s.view j := by
  have hok := h.wellFormed.ok
  have hlive : s.abs.Live i := Or.inr (Or.inl hv.1)
  have hdoes : (SfsOp.read i u).run.Does (fun _ => False) s _ :=
    read_does ⟨hok, hv.1, hi1, h.nblocks, hv.2.resid, hv.2.room⟩
      (type_ne_dir h.wellFormed.wf hv.1 hi1) hv.2.rw
  obtain ⟨r, s', hrun, res, u', rfl, k, -, hall, hdone, hread⟩ := hdoes.exists_ok
  obtain ⟨f, hs, -, -, hf⟩ := hread.content
  obtain ⟨rfl, hbytes⟩ := hf h.io
  obtain rfl := hdone h.io (h.size_le i hi1 hlive)
  rw [← h.size i hi1 hlive, ← funext (h.byte i hi1 hlive)]
  refine ⟨u', s', k, hrun, hall rfl, hread.resid, hbytes, fun j hj => ?_⟩
  rw [hs.view_eq hok hi1 hj]
  split_ifs with hji
  · rw [hji, abs_file (hji ▸ hj)]
  · rfl

/-- A write changes the bytes that it moved. -/
theorem Tracks.write (h : Tracks s₀ l s) (hi1 : i ≠ 1) (hv : (SfsOp.write i u).Valid s.abs)
    (hin : (SfsOp.write i u).Within) :
    ∃ res u' s' k, (SfsOp.write i u).run s = .ok (.ok (res, .uio u'), s') ∧
      u'.uioResid + k = u.uioResid ∧ (res = .ok () → k = u.uioResid) ∧
      s'.view i = (s.view i).write u.uioOffset k u.bytes ∧
      ∀ j, j ≠ i → s.Live j → s'.view j = s.view j := by
  have hok := h.wellFormed.ok
  have hlive : s.Live i := hok.abs_live.mp (Or.inr (Or.inl hv.1))
  have hdoes : (SfsOp.write i u).run.Does (fun _ => False) s _ :=
    write_does ⟨hok, hv.1, hi1, h.nblocks, hv.2.resid, hv.2.room⟩
      (type_ne_dir h.wellFormed.wf hv.1 hi1) hv.2.rw
  obtain ⟨r, s', hrun, res, u', rfl, k, -, hall, hwr⟩ := hdoes.exists_ok
  obtain ⟨f, hs, -, -, hf⟩ := hwr.content
  obtain rfl := hf h.io (Uio.near_of_within hv.2.resid hin)
  refine ⟨res, u', s', k, hrun, hwr.resid, hall, ?_, fun j hji hj => ?_⟩
  · rw [hs.view_eq hok hi1 hlive, if_pos rfl, abs_file hlive]
  · rw [hs.view_eq hok hi1 hj, if_neg hji]

/-- In every run of operations that do not truncate, at positions below `2 ^ 41 - 2 ^ 32`, on a
volume of fewer than `2 ^ 23` blocks whose files have nothing past their ends : the files contain
what was written last, a read hands out the bytes up to the end of the file, and a write changes
the bytes that it moved and no others. -/
theorem files_are_byte_arrays (h : s₀.WellFormed) (hio : s₀.IoOk) (hn : s₀.sbNblocks < 2 ^ 23)
    (hfiles : ∀ i, i ≠ 1 → s₀.Live i → (s₀.view i).Sound) (hrun : Run FileStep s₀ l s) :
    (∀ i, i ≠ 1 → s.Live i → (s.view i).size = lastSize s₀ l i ∧
      ∀ pos, (s.view i).byte pos = lastByte s₀ l i pos) ∧
    (∀ i u, i ≠ 1 → (SfsOp.read i u).Valid s.abs → (SfsOp.read i u).Within →
      ∃ u' s' k, (SfsOp.read i u).run s = .ok (.ok (.ok (), .uio u'), s') ∧
        k = min u.uioResid (lastSize s₀ l i - u.uioOffset) ∧ u'.uioResid + k = u.uioResid ∧
        u'.bytes = u.bytes ++ Uio.slice (lastByte s₀ l i) u.uioOffset k ∧
        ∀ j, s.Live j → s'.view j = s.view j) ∧
    ∀ i u, i ≠ 1 → (SfsOp.write i u).Valid s.abs → (SfsOp.write i u).Within →
      ∃ res u' s' k, (SfsOp.write i u).run s = .ok (.ok (res, .uio u'), s') ∧
        u'.uioResid + k = u.uioResid ∧ (res = .ok () → k = u.uioResid) ∧
        (s'.view i).size = (if k = 0 then (s.view i).size
          else max (s.view i).size (u.uioOffset + k)) ∧
        (∀ pos, (s'.view i).byte pos = if u.uioOffset ≤ pos ∧ pos < u.uioOffset + k
          then u.bytes.getD (pos - u.uioOffset) 0 else (s.view i).byte pos) ∧
        ∀ j, j ≠ i → s.Live j → s'.view j = s.view j := by
  have htracks : Tracks s₀ l s := hrun.trace_induct (I := fun l s => Tracks s₀ l s)
    (.start h hio hn.le hfiles) fun _ _ _ _ _ ht hs => ht.step hs
  refine ⟨fun i hi1 hi => ?_, fun i u hi1 hv _ => htracks.read hi1 hv,
    fun i u hi1 hv hin => ?_⟩
  · have hlive := htracks.wellFormed.ok.abs_live.mpr hi
    rw [← abs_file hi]
    exact ⟨htracks.size i hi1 hlive, htracks.byte i hi1 hlive⟩
  · obtain ⟨res, u', s', k, hwrite, hres, hall, hfile, hrest⟩ := htracks.write hi1 hv hin
    refine ⟨res, u', s', k, hwrite, hres, hall, ?_, fun pos => ?_, hrest⟩
    · rw [hfile]
      rfl
    · rw [hfile]
      simp only [FileView.write, moveBytes, Nat.zero_add]

/-- Two bytes are written to a new file and read back. -/
theorem files_are_byte_arrays_created : ∃ s u' s',
    Run FileStep openFile [.wrote 4 0 [7, 8], .created 4] s ∧
    (SfsOp.read 4 ⟨[8], 0, 8, .read, []⟩).run s = .ok (.ok (.ok (), .uio u'), s') ∧
    u'.bytes = [7, 8] := by
  obtain ⟨s₁, s, hcreat, hwrite, -, hrefs⟩ := openFile_written
  have hlive : ∀ i, openFile.Live i ↔ i = 3 ∨ i = 1 := fun i =>
    openFile_onlyFile.live_iff (by decide)
  have hfiles : ∀ i, i ≠ 1 → openFile.Live i → (openFile.view i).Sound := fun i hi1 hi => by
    obtain rfl := ((hlive i).mp hi).resolve_right hi1
    rw [openFile_file]
    exact ⟨Nat.zero_le _, fun _ _ => rfl⟩
  have hnew : ¬openFile.abs.Live 4 := by
    rw [openFile_ok.abs_live, hlive]
    decide
  have hwithin : 0 < 2 ^ 41 - 2 ^ 32 := by decide
  have hrun : Run FileStep openFile [.wrote 4 0 [7, 8], .created 4] s :=
    (Run.start.snoc ⟨_, _, hcreat, not_false, trivial,
      (FileEvent.of_creat_of_not_live hnew).symm⟩).snoc
      ⟨_, _, hwrite, not_false, hwithin, rfl⟩
  obtain ⟨-, hread, -⟩ :=
    files_are_byte_arrays openFile_wellFormed (fun _ => rfl) (by decide) hfiles hrun
  obtain ⟨u', s', k, hrun', rfl, -, hbytes, -⟩ := hread 4 ⟨[8], 0, 8, .read, []⟩ (by decide)
    ⟨hrefs.trans_ne one_ne_zero, rfl, by decide, by decide⟩ hwithin
  exact ⟨s, u', s', hrun, hrun', hbytes⟩

end Runs

end OS161
