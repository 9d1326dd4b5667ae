import OS161.SfsDir

/-!
# `sfs_dir.c`

What the functions for the directory do to the file system as its users see it. A name is found
in the slot that has it (`sfsDirFindname_does`), `sfs_dir_link` fills a free slot
(`sfsDirLink_does`), `sfs_dir_unlink` empties one (`sfsDirUnlink_does`), and `sfs_lookonce` adds
a reference to the inode with the name (`sfsLookonce_does`). When the device fails, nothing
changes.
-/

namespace OS161

open Sfs Volume

variable {ok : Halt → Prop} {s s' : Sfs} {loose : Set ℕ} {b i k fb : ℕ} {sv : SfsVnode}
  {d : DiskBlock} {name : CString}

/-! ## Slots -/

/-- The bytes of a file are those in its blocks. -/
theorem byte_of_live (hi : s.Live i) (off : ℕ) : (s.abs.file i).byte off =
    if s.ptr i (off / 512) = 0 then 0 else s.disk (s.ptr i (off / 512)) (off % 512) := by
  rw [abs_file hi]
  rfl

theorem sfsReaddir_does (h : s.Ok loose) (hi : s.loaded 1 = some sv) (hk : k < 1144) :
    (sfsReaddir 1 k).Does ok s fun r s' => Quiet s loose s' ∧
      SameOthers 1 s.toVolume s'.toVolume ∧ match r with
        | .ok d => ∀ x < 64, d x = (s.abs.file 1).entry k x
        | .error _ => ¬s.IoOk := by
  obtain ⟨fb, hfb⟩ : ∃ fb, fb = k * 64 / 512 := ⟨_, rfl⟩
  have hblk : ∀ x < 64, (k * 64 + x) / 512 = fb := fun x hx => by omega
  have hoff : ∀ x < 64, (k * 64 + x) % 512 = k * 64 % 512 + x := fun x hx => by omega
  have hw : word32 (k * 64 / 512) = fb := by
    unfold word32
    omega
  unfold sfsReaddir sfsMetaio
  rw [hw]
  refine (sfsBmap_does h hi).bind ?_ ?_
  · rintro e s₁ ⟨hq, hoth, herr⟩
    refine ⟨hq, hoth, fun hok => ?_⟩
    rcases herr hok with hbig | hbig
    · omega
    · exact absurd hbig.1 (by decide)
  · rintro b s₁ ⟨hq, hoth, hptr, -⟩
    have hbyte : ∀ x < 64, (s.abs.file 1).entry k x =
        if b = 0 then 0 else s₁.disk b (k * 64 % 512 + x) := by
      intro x hx
      have := byte_of_live (s := s₁) live_root (k * 64 + x)
      rw [hblk x hx, hoff x hx, hptr, hq.abs] at this
      exact this
    split_ifs with hb
    · refine ⟨hq, hoth, fun x hx => ?_⟩
      rw [hbyte x hx, if_pos hb]
      exact ite_self _
    · refine does_readblock (hq.ok.lt_device (show s₁.Ref (.data 1 fb) b from
        ⟨live_root, hb, hptr⟩)) (fun hio => ⟨hq.ioDone, hoth, fun hok => hio (hq.next.io hok 0)⟩)
        fun _ => ⟨hq.ioDone, hoth, fun x hx => ?_⟩
      rw [hbyte x hx, if_neg hb]
      have hx' : 0 ≤ x ∧ x < 0 + 64 := by omega
      exact if_pos hx'

theorem slotIno_of_ptr_zero (h : s.ptr 1 (k * 64 / 512) = 0) : (s.abs.file 1).slotIno k = 0 := by
  refine (sfdIno_congr fun x hx => (?_ : _ = zeroBlock x)).trans (getWord_zero 0)
  have hblk : (k * 64 + x) / 512 = k * 64 / 512 := by omega
  have := byte_of_live (s := s) live_root (k * 64 + x)
  rw [hblk, h, if_pos rfl] at this
  exact this

/-- Writing the bytes of a slot into its block. -/
theorem setBlock_entry (hfb : fb = k * 64 / 512) (hptr : s.ptr 1 fb = b) (hb : b ≠ 0) :
    (s.abs.file 1).setBlock fb (moveBytes d 0 (s.disk b) (k * 64 % 512) 64) =
      { s.abs.file 1 with byte := ((s.abs.file 1).setEntry k d).byte } := by
  refine FileView.ext rfl rfl rfl (funext fun off => ?_)
  change (if off / 512 = fb then moveBytes d 0 (s.disk b) (k * 64 % 512) 64 (off % 512)
    else (s.abs.file 1).byte off) = if off / 64 = k then d (off % 64) else (s.abs.file 1).byte off
  by_cases hk : off / 64 = k
  · have h1 : off / 512 = fb := by omega
    have h2 : k * 64 % 512 ≤ off % 512 ∧ off % 512 < k * 64 % 512 + 64 := by omega
    have h3 : 0 + (off % 512 - k * 64 % 512) = off % 64 := by omega
    rw [if_pos h1, if_pos hk, moveBytes, if_pos h2, h3]
  · split_ifs with h1
    · have h2 : ¬(k * 64 % 512 ≤ off % 512 ∧ off % 512 < k * 64 % 512 + 64) := by omega
      rw [moveBytes, if_neg h2, byte_of_live live_root, h1, hptr, if_neg hb]
    · rfl

/-- The size of the directory is set after its bytes were written. -/
theorem growDir_does (h : s.Ok loose) (hi : s.loaded 1 = some sv) {f : FileView}
    (hf : s.abs.file 1 = { f with byte := (f.setEntry k d).byte }) (hk : k < 1144)
    (hnames : ∀ j, ¬s.Loaded j → ((f.setEntry k d).Names j ↔ (s.abs.file 1).Names j)) :
    (if sfiSize sv.svI < k * 64 + 64 then do
        setInode 1 (setSfiSize (k * 64 + 64))
        pure d
      else pure d : SfsM DiskBlock).Does ok s fun r s' => r = .ok d ∧
        SameOthers 1 s.toVolume s'.toVolume ∧
        Shows s loose (s.abs.setFile 1 (f.setEntry k d)) s' := by
  have hfile := abs_file_of_loaded hi
  have hsize : sfiSize sv.svI = f.size := by
    change (viewOf s.disk sv.svI).size = f.size
    rw [← hfile, hf]
  split_ifs with hlt
  · have hview : viewOf s.disk (setSfiSize (k * 64 + 64) sv.svI) = f.setEntry k d := by
      rw [viewOf_attrs (d := sv.svI) (by simp) (by simp), ← hfile, hf]
      have hty : sfiType sv.svI = f.type := by
        change (viewOf s.disk sv.svI).type = f.type
        rw [← hfile, hf]
      have hli : sfiLinkcount sv.svI = f.links := by
        change (viewOf s.disk sv.svI).links = f.links
        rw [← hfile, hf]
      refine FileView.ext ?_ ?_ ?_ rfl
      · change sfiSize (setSfiSize (k * 64 + 64) sv.svI) = max f.size (k * 64 + 64)
        rw [sfiSize_setSfiSize]
        omega
      · exact hty
      · exact hli
    obtain ⟨hp, habs, href⟩ := h.changeInode (g := setSfiSize (k * 64 + 64)) hi (by simp) (by simp)
      fun _ j hj => by
        rw [hview, ← abs_file (v := s.toVolume) live_root]
        exact hnames j hj
    rw [hview] at habs
    exact ⟨rfl, sameOthers_setInode _ _, hp, habs, (Next.refl s).volume _, .of_iff href⟩
  · have hself : f.setEntry k d = s.abs.file 1 := by
      rw [hf]
      refine FileView.ext ?_ rfl rfl rfl
      change max f.size (k * 64 + 64) = f.size
      omega
    rw [hself, Fs.setFile_self]
    exact ⟨rfl, .of_vnodes rfl, Quiet.refl h⟩

/-- What writing slot `k` of the directory does. -/
def SlotPost (s : Sfs) (loose : Set ℕ) (k : ℕ) (d : DiskBlock) {α : Type} (r : Except Errno α)
    (s' : Sfs) : Prop :=
  SameOthers 1 s.toVolume s'.toVolume ∧ match r with
    | .ok _ => k < 1144 ∧ Shows s loose (s.abs.setSlot k d) s'
    | .error _ => Quiet s loose s' ∧ (s.IoOk → (s.abs.file 1).slotIno k = 0)

theorem sfsWritedir_does (h : s.Ok loose) (hi : s.loaded 1 = some sv)
    (hk : k ≤ (s.abs.file 1).nslots) (hdir : (s.abs.file 1).IsDir)
    (hnames : ∀ j, ¬s.Loaded j →
      (((s.abs.file 1).setEntry k d).Names j ↔ (s.abs.file 1).Names j)) :
    (sfsWritedir 1 k d).Does ok s (SlotPost s loose k d) := by
  obtain ⟨fb, hfb⟩ : ∃ fb, fb = k * 64 / 512 := ⟨_, rfl⟩
  have hle := hdir.nslots_le
  have hw : word32 (k * 64 / 512) = fb := by
    unfold word32
    omega
  unfold sfsWritedir sfsMetaio
  rw [hw]
  refine Call.Does.bind (P := SlotPost s loose k d) ?_ (fun _ _ he => he) fun _ _ hs' => hs'
  refine (sfsBmap_does h hi).bind ?_ ?_
  · rintro e s₁ ⟨hq, hoth, herr⟩
    refine ⟨hoth, hq, fun hok => slotIno_of_ptr_zero (hfb ▸ ?_)⟩
    rcases herr hok with hbig | hbig
    · exact filePtr_big hbig
    · exact hbig.2
  · rintro b s₁ ⟨hq, hoth, hptr, hb⟩
    have hb : b ≠ 0 := hb rfl
    have hk' : k < 1144 := by
      have : fb < 143 := lt_of_filePtr_ne_zero (hptr.trans_ne hb)
      omega
    rw [if_neg hb]
    have hdev := hq.ok.lt_device (show s₁.Ref (.data 1 fb) b from ⟨live_root, hb, hptr⟩)
    refine does_readblock hdev
      (fun hio => ⟨hoth, hq.ioDone, fun hok => absurd (hq.next.io hok 0) hio⟩) fun _ => ?_
    obtain ⟨w, hwdef⟩ : ∃ w, w = moveBytes d 0 (s₁.disk b) (k * 64 % 512) 64 := ⟨_, rfl⟩
    rw [← hwdef]
    have hq₁ := hq.ioDone
    refine does_writeblock_bind (s := s₁.ioDone) hdev
      (fun hio => ⟨hoth, hq₁.ioDone, fun hok => absurd (hq₁.next.io hok 0) hio⟩) fun _ => ?_
    set s₂ : Sfs := s₁.ioDone.ioDone.withVolume (s₁.ioDone.setDisk b w) with hs₂
    have hset := setBlock_entry (s := s₁) (d := d) hfb hptr hb
    rw [hq.abs, ← hwdef] at hset
    have hview : s₁.view 1 = s.abs.file 1 := by
      rw [← abs_file live_root, hq.abs]
    obtain ⟨hp, habs, href⟩ := hq.ok.writeData (w := w) live_root hptr hb fun _ j hj => by
      rw [hview, hset]
      exact FileView.names_writeEntry hk (hnames j (mt (hq.loaded_iff h).mpr hj))
    rw [hview, hset, hq.abs] at habs
    have hs₂' : Shows s loose (s.abs.setFile 1 { s.abs.file 1 with
        byte := ((s.abs.file 1).setEntry k d).byte }) s₂ :=
      ⟨hp, habs, (hq₁.next.trans (.ioDone _)).volume _, hq.grows.trans (.of_iff href)⟩
    have hf : s₂.abs.file 1 = { s.abs.file 1 with
        byte := ((s.abs.file 1).setEntry k d).byte } := by
      rw [hs₂'.abs, Fs.setFile_file]
    obtain ⟨sv₂, hi₂⟩ := Ok.exists_loaded (s := s₂) (i := 1) (by
      rw [hs₂'.abs]
      exact h.refs_ne_zero hi)
    have hi₂' : getVnode 1 (s₁.ioDone.ioDone.withVolume (s₁.ioDone.setDisk b w)) =
      .ok (.ok sv₂, s₂) := getVnode_eq hi₂
    rw [Call.does_bind_of_ok hi₂']
    refine (growDir_does hs₂'.ok hi₂ hf hk' fun j hj => ?_).mono ?_
    · have hj' : ¬s.Loaded j := fun hl => hj ((hq.loaded_iff h).mpr hl)
      have hnj := hnames j hj'
      rw [hf, FileView.names_writeEntry hk hnj, hnj]
    · rintro r s₃ ⟨rfl, hoth₃, hs₃⟩
      have hall := hs₂'.trans hs₃
      rw [hs₂'.abs, Fs.setFile_setFile] at hall
      exact ⟨hoth.trans hoth₃, hk', hall⟩

theorem sfsDirNentries_eq (hdir : (s.abs.file 1).IsDir) (hi : s.loaded 1 = some sv) :
    sfsDirNentries 1 s = .ok (.ok (s.abs.file 1).nslots, s) := by
  have hfile := abs_file_of_loaded hi
  have ht : sfiType sv.svI = sfsTypeDir := by
    have := hdir.type
    rw [hfile] at this
    exact this
  have hm : sfiSize sv.svI % 64 = 0 := by
    have := hdir.size_mod
    rw [hfile] at this
    exact this
  unfold sfsDirNentries
  rw [Call.bind_of_ok (getVnode_eq hi), kassert_pos ht, hfile]
  rw [if_neg (not_not.mpr hm)]
  rfl

/-! ## `sfs_dir_findname` -/

/-- What is known when the slots in `l` are left. -/
structure Searched (f : FileView) (name : CString) (l : List ℕ) (r : FoundName) : Prop where
  lt : ∀ k ∈ l, k < f.nslots
  nodup : l.Nodup
  found : ∀ {i k}, r.found = some (i, k) → f.Binds name.bytes k ∧ f.slotIno k = i ∧ k ∉ l
  missing : r.found = none → ∀ k, f.Binds name.bytes k → k ∈ l
  empty : ∀ {k}, r.emptyslot = some k → k < f.nslots ∧ f.slotIno k = 0

namespace Searched

variable {f : FileView} {l : List ℕ} {r : FoundName}

/-- The next slot does not have the name. -/
theorem skip {r' : FoundName} (h : Searched f name (k :: l) r) (hk : ¬f.Binds name.bytes k)
    (hf : r'.found = r.found)
    (he : ∀ {k'}, r'.emptyslot = some k' → k' < f.nslots ∧ f.slotIno k' = 0) :
    Searched f name l r' where
  lt k' hk' := h.lt k' (List.mem_cons_of_mem _ hk')
  nodup := (List.nodup_cons.mp h.nodup).2
  found hr := by
    obtain ⟨h1, h2, h3⟩ := h.found (hf.symm.trans hr)
    exact ⟨h1, h2, fun hm => h3 (List.mem_cons_of_mem _ hm)⟩
  missing hr k' hb := by
    rcases List.mem_cons.mp (h.missing (hf.symm.trans hr) k' hb) with rfl | hm
    · exact absurd hb hk
    · exact hm
  empty := he

/-- The next slot has the name : it was not found before. -/
theorem hit (h : Searched f name (k :: l) r) (hdir : f.IsDir) (hk : f.Binds name.bytes k) :
    r.found = none ∧ Searched f name l { r with found := some (f.slotIno k, k) } := by
  obtain ⟨hkl, hl⟩ := List.nodup_cons.mp h.nodup
  refine ⟨?_, fun k' hk' => h.lt k' (List.mem_cons_of_mem _ hk'), hl, fun hr => ?_,
    fun hr => absurd hr (by simp), h.empty⟩
  · by_contra hne
    obtain ⟨⟨i', k'⟩, hr⟩ := Option.ne_none_iff_exists'.mp hne
    obtain ⟨hb, -, hk'⟩ := h.found hr
    exact hk' (hdir.unique hb hk ▸ List.mem_cons_self)
  · cases hr
    exact ⟨hk, rfl, hkl⟩

end Searched

theorem findnameLoop_does {f : FileView} (hdir : f.IsDir) :
    ∀ (l : List ℕ) (r : FoundName) (s : Sfs),
    s.Ok loose → s.abs.file 1 = f → s.abs.refs 1 ≠ 0 → Searched f name l r →
    (findnameLoop 1 name l r).Does ok s fun r s' => Quiet s loose s' ∧
      SameOthers 1 s.toVolume s'.toVolume ∧ match r with
        | .ok r => Searched f name [] r
        | .error _ => ¬s.IoOk
  | [], r, s, h, _, _, hr => ⟨Quiet.refl h, .of_vnodes rfl, hr⟩
  | k :: l, r, s, h, hf, h1, hr => by
    obtain ⟨sv, hi⟩ := Ok.exists_loaded h1
    have hk := hr.lt k List.mem_cons_self
    refine (sfsReaddir_does h hi (hk.trans_le hdir.nslots_le)).bind ?_ ?_
    · rintro e s₁ ⟨hq, hoth, hio⟩
      exact ⟨hq, hoth, hio⟩
    · rintro d s₁ ⟨hq, hoth, hd⟩
      rw [hf] at hd
      have hino : sfdIno d = f.slotIno k := sfdIno_congr hd
      have hname : sfdName d = f.slotName k := sfdName_congr hd
      have hrest : ∀ r', Searched f name l r' → (findnameLoop 1 name l r').Does ok s₁ fun r s' =>
          Quiet s loose s' ∧ SameOthers 1 s.toVolume s'.toVolume ∧ match r with
            | .ok r => Searched f name [] r
            | .error _ => ¬s.IoOk := by
        intro r' hr'
        refine (findnameLoop_does hdir l r' s₁ hq.ok (by rw [hq.abs, hf]) (by rwa [hq.abs])
          hr').mono ?_
        rintro r'' s₂ ⟨hq₂, hoth₂, hpost⟩
        refine ⟨hq.trans hq₂, hoth.trans hoth₂, ?_⟩
        cases r'' with
        | ok r'' => exact hpost
        | error e => exact fun hok => hpost (hq.next.io hok)
      rw [hino, hname]
      split_ifs with h0 hn
      · refine hrest _ (hr.skip (fun hb => hb.2.1 h0) rfl fun he => ?_)
        cases he
        exact ⟨hk, h0⟩
      · obtain ⟨hnone, hr'⟩ := hr.hit hdir ⟨hk, h0, hn⟩
        rw [Call.does_lift_bind (kassert_pos hnone _)]
        exact hrest _ hr'
      · exact hrest _ (hr.skip (fun hb => hn hb.2.2) rfl hr.empty)

theorem sfsDirFindname_does (h : s.Ok loose) (hdir : (s.abs.file 1).IsDir)
    (h1 : s.abs.refs 1 ≠ 0) : (sfsDirFindname 1 name).Does ok s fun r s' => Quiet s loose s' ∧
      SameOthers 1 s.toVolume s'.toVolume ∧ match r with
        | .ok r => Searched (s.abs.file 1) name [] r
        | .error _ => ¬s.IoOk := by
  obtain ⟨sv, hi⟩ := Ok.exists_loaded h1
  unfold sfsDirFindname
  rw [Call.does_bind_of_ok (sfsDirNentries_eq hdir hi)]
  refine findnameLoop_does hdir _ _ s h rfl h1 ⟨fun k hk => List.mem_range.mp hk,
    List.nodup_range, by simp, fun _ k hb => List.mem_range.mpr hb.1, by simp⟩

/-! ## Links -/

/-- The inode number of a live file is that of a block. -/
theorem Sfs.Ok.ino_bounds (h : s.Ok loose) (hi : s.Live i) : i ≠ 0 ∧ i < 2 ^ 32 := by
  have href : s.Ref (.inode i) i := ⟨hi, rfl⟩
  refine ⟨?_, (h.lt_of_ref href).trans h.nblocks_lt⟩
  rintro rfl
  cases h.held.inj href (show s.Ref .super 0 from rfl)

/-- A vnode with references is in memory. -/
theorem Sfs.Ok.loaded_of_refs (h : s.Ok loose) (hi : s.abs.refs i ≠ 0) : s.Loaded i :=
  h.refs_ne_zero_iff.mp hi

theorem sfsDirLink_does (h : s.Ok loose) (hdir : (s.abs.file 1).IsDir) (h1 : s.abs.refs 1 ≠ 0)
    (hi : s.abs.refs i ≠ 0) : (sfsDirLink 1 name i).Does ok s fun r s' =>
      SameOthers 1 s.toVolume s'.toVolume ∧ match r with
        | .ok k => (s.abs.file 1).FreeSlot k ∧ (∀ k', ¬(s.abs.file 1).Binds name.bytes k') ∧
            name.bytes.length ≤ 59 ∧ Shows s loose (s.abs.setSlot k (direntry i name.bytes)) s'
        | .error _ => Quiet s loose s' := by
  have hld := h.loaded_of_refs hi
  obtain ⟨hi0, hi32⟩ := h.ino_bounds hld.live
  refine (sfsDirFindname_does h hdir h1).bind (fun e s₁ he => ⟨he.2.1, he.1⟩) ?_
  rintro r s₁ ⟨hq, hoth, hr⟩
  obtain ⟨found, emptyslot⟩ := r
  cases found with
  | some p => exact ⟨hoth, hq⟩
  | none =>
    have hno : ∀ k', ¬(s.abs.file 1).Binds name.bytes k' := fun k' hb =>
      absurd (hr.missing rfl k' hb) List.not_mem_nil
    split_ifs with hlen
    · exact ⟨hoth, hq⟩
    have h1₁ : s₁.abs.refs 1 ≠ 0 := by rwa [hq.abs]
    obtain ⟨sv₁, hi₁⟩ := Ok.exists_loaded h1₁
    -- The last empty slot, or the next one.
    obtain ⟨k, hslot, hle, hempty⟩ : ∃ k, slotFor 1 emptyslot s₁ = .ok (.ok k, s₁) ∧
        k ≤ (s.abs.file 1).nslots ∧ (k < (s.abs.file 1).nslots → (s.abs.file 1).slotIno k = 0) := by
      cases emptyslot with
      | some k => exact ⟨k, rfl, (hr.empty rfl).1.le, fun _ => (hr.empty rfl).2⟩
      | none =>
        refine ⟨_, sfsDirNentries_eq (by rwa [hq.abs]) hi₁, ?_, ?_⟩
        · rw [hq.abs]
        · rw [hq.abs]
          exact fun hlt => absurd hlt (lt_irrefl _)
    rw [Call.does_bind_of_ok hslot]
    have hle₁ : k ≤ (s₁.abs.file 1).nslots := by rwa [hq.abs]
    have hnames : ∀ j, ¬s₁.Loaded j →
        (((s₁.abs.file 1).setEntry k (direntry i name.bytes)).Names j ↔
        (s₁.abs.file 1).Names j) := by
      intro j hj
      have hji : j ≠ i := by
        rintro rfl
        exact hj ((hq.loaded_iff h).mpr hld)
      rw [hq.abs]
      refine exists_congr fun k' => ?_
      rw [FileView.namedAt_setEntry hle, sfdIno_direntry hi32]
      constructor
      · rintro (⟨-, -, hij⟩ | ⟨-, hk'⟩)
        · exact absurd hij.symm hji
        · exact hk'
      · intro hk'
        refine Or.inr ⟨?_, hk'⟩
        rintro rfl
        exact hk'.2.1 (hk'.2.2.symm.trans (hempty hk'.1))
    refine (sfsWritedir_does hq.ok hi₁ hle₁ (by rwa [hq.abs]) hnames).bind ?_ ?_
    · rintro e s₂ ⟨hoth₂, hq₂, -⟩
      exact ⟨hoth.trans hoth₂, hq.trans hq₂⟩
    · rintro _ s₂ ⟨hoth₂, hlt, hs₂⟩
      have hall := Shows.trans hq hs₂
      rw [hq.abs] at hall
      exact ⟨hoth.trans hoth₂, ⟨hle, hlt, hempty⟩, hno, by omega, hall⟩

theorem sfsDirUnlink_does (h : s.Ok loose) (hdir : (s.abs.file 1).IsDir) (h1 : s.abs.refs 1 ≠ 0)
    (hi : s.abs.refs i ≠ 0) (hk : (s.abs.file 1).NamedAt k i) :
    (sfsDirUnlink 1 k).Does ok s fun r s' => SameOthers 1 s.toVolume s'.toVolume ∧ match r with
      | .ok _ => Shows s loose (s.abs.setSlot k (direntry 0 [])) s'
      | .error _ => Quiet s loose s' ∧ ¬s.IoOk := by
  have hd : sfdIno (direntry 0 []) = 0 := sfdIno_direntry (by decide) []
  obtain ⟨sv, hsv⟩ := Ok.exists_loaded h1
  have hnames : ∀ j, ¬s.Loaded j →
      (((s.abs.file 1).setEntry k (direntry 0 [])).Names j ↔ (s.abs.file 1).Names j) := by
    intro j hj
    refine FileView.names_unlink hk.1 hd ?_
    rintro rfl
    refine hj (h.loaded_of_refs ?_)
    change s.abs.refs (sfdIno ((s.abs.file 1).entry k)) ≠ 0
    rwa [hk.2.2]
  refine (sfsWritedir_does h hsv hk.1.le hdir hnames).mono ?_
  rintro r s' ⟨hoth, hr⟩
  refine ⟨hoth, ?_⟩
  cases r with
  | ok _ => exact hr.2
  | error e => exact ⟨hr.1, fun hok => hk.2.1 (hk.2.2.symm.trans (hr.2 hok))⟩

/-! ## `sfs_lookonce` -/

theorem FileView.Binds.namedAt {f : FileView} {n : List UInt8} (h : f.Binds n k) :
    f.NamedAt k (f.slotIno k) :=
  ⟨h.1, h.2.1, rfl⟩

theorem sfsLookonce_does (h : s.Ok loose) (hwf : s.abs.WF) (h1 : s.abs.refs 1 ≠ 0) :
    (sfsLookonce 1 name).Does ok s fun r s' => match r with
      | .ok p => (s.abs.file 1).Binds name.bytes p.2 ∧ (s.abs.file 1).NamedAt p.2 p.1 ∧
          Shows s loose (s.abs.addRef p.1) s'
      | .error _ => Quiet s loose s' := by
  refine (sfsDirFindname_does h hwf.root h1).bind (fun e s₁ he => he.1) ?_
  rintro r s₁ ⟨hq, -, hr⟩
  obtain ⟨found, emptyslot⟩ := r
  cases found with
  | none => exact hq
  | some p =>
    obtain ⟨ino, slot⟩ := p
    obtain ⟨hb, rfl, -⟩ := hr.found rfl
    have hnamed := hb.namedAt
    have hlive : s.abs.Live ((s.abs.file 1).slotIno slot) := Or.inr (Or.inr ⟨slot, hnamed⟩)
    have hi1 := hwf.named ⟨slot, hnamed⟩
    have hlive₁ : s₁.Live ((s.abs.file 1).slotIno slot) := by
      rw [← hq.ok.abs_live, hq.abs]
      exact hlive
    refine (sfsLoadvnode_does hq.ok hlive₁ ?_).bind (fun e s₂ he => hq.trans he) ?_
    · rw [hq.abs]
      exact hwf.type_of_live hlive
    · rintro _ s₂ hs₂
      have hall := Shows.trans hq hs₂
      rw [hq.abs] at hall
      have hrefs : s₂.abs.refs ((s.abs.file 1).slotIno slot) ≠ 0 := by
        rw [hall.abs]
        change Function.update _ _ _ _ ≠ 0
        rw [Function.update_self]
        exact Nat.succ_ne_zero _
      obtain ⟨sv, hsv⟩ := Ok.exists_loaded hrefs
      rw [Call.does_bind_of_ok (getVnode_eq hsv), if_neg]
      · exact ⟨hb, hnamed, hall⟩
      · rw [← inode_of_loaded hsv, ← links_of_live (live_of_loaded hsv), hall.abs]
        change ¬(s.abs.file _).links = 0
        rw [hwf.links_eq_zero hlive hi1, not_not]
        exact ⟨slot, hnamed⟩

end OS161
