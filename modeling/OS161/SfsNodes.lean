import OS161.SfsTrunc

/-!
# Loading, making and reclaiming vnodes

`sfsLoadvnode_does` and `sfsMakeobj_does` : a vnode gets one more reference, or a new file comes
into being, or nothing happens that the users of the file system see. `vopDecref_does` : a
reference is dropped. With the last one the vnode leaves the table, and a file that has no name
any more is erased with its blocks (`Fs.decref`). When the device fails, the vnode stays in the
table, and such a file may have lost contents.
-/

namespace OS161

namespace Fs

variable (a : Fs) (i : ℕ)

/-- One more reference to a vnode. -/
def addRef : Fs :=
  a.setRefs i (a.refs i + 1)

/-- A new file without a name, and the reference to it. -/
def addFile : Fs :=
  (a.setFile i ⟨0, sfsTypeFile, 0, fun _ => 0⟩).setRefs i 1

/-- A reference to a vnode is dropped. The last one takes a file without names with it. -/
def decref : Fs :=
  if 1 < a.refs i then a.setRefs i (a.refs i - 1)
  else if (a.file i).links = 0 then (a.setFile i FileView.none).setRefs i 0
  else a.setRefs i 0

end Fs

open Sfs Volume

variable {ok : Halt → Prop} {s s' : Sfs} {loose : Set ℕ} {b i t : ℕ} {sv : SfsVnode}

theorem refs_of_not_loaded (h : ¬s.Loaded i) : s.abs.refs i = 0 := by
  change (s.loaded i).elim 0 SfsVnode.vnRefcount = 0
  rw [Option.not_isSome_iff_eq_none.mp h]
  rfl

theorem kmallocAnswer_eq (s : Sfs) : kmallocAnswer s = .ok (.ok (s.memory 0), s.memoryDone) :=
  rfl

theorem Sfs.Quiet.memoryDone (h : Quiet s loose s') : Quiet s loose s'.memoryDone :=
  ⟨h.ok, h.abs, h.next.trans (.memoryDone s'), h.grows⟩

/-- The inodes in use are in blocks in use. -/
theorem Sfs.Ok.inUse_of_live (h : s.Ok loose) (hi : s.Live i) : s.InUse i :=
  h.held.marked_of (show s.Ref (.inode i) i from ⟨hi, rfl⟩)

theorem type_of_live (hi : s.Live i) : (s.abs.file i).type = sfiType (s.inode i) := by
  rw [abs_file hi]
  rfl

theorem links_of_live (hi : s.Live i) : (s.abs.file i).links = sfiLinkcount (s.inode i) := by
  rw [abs_file hi]
  rfl

/-! ## References -/

theorem vopIncref_does (h : s.Ok loose) (hi : s.loaded i = some sv) :
    (vopIncref i).Does ok s fun r s' => r = .ok () ∧ Shows s loose (s.abs.addRef i) s' := by
  have hr : s.abs.refs i = sv.vnRefcount := refs_of_loaded hi
  obtain ⟨hp, habs, href⟩ := h.setCount
    (f := fun sv => { sv with vnRefcount := sv.vnRefcount + 1 }) (fun _ => rfl) (fun _ => rfl) hi
    (Nat.succ_pos _) fun hd => h.clean_of_loaded hi hd
  refine ⟨rfl, hp, ?_, (Next.refl s).volume _, .of_iff href⟩
  unfold Fs.addRef
  rw [hr]
  exact habs

/-! ## `sfs_loadvnode` -/

theorem findVnode_of_not_mem : ∀ (l : List SfsVnode), (∀ sv ∈ l, s.InUse sv.svIno) →
    i ∉ l.map SfsVnode.svIno → findVnode i t l s = .ok (.ok false, s)
  | [], _, _ => rfl
  | sv :: l, hu, hi => by
    rw [List.map_cons, List.mem_cons, not_or] at hi
    unfold findVnode
    rw [Call.bind_of_ok (sfsBused_eq (hu sv List.mem_cons_self)), if_neg (by decide),
      if_neg (Ne.symm hi.1)]
    exact findVnode_of_not_mem l (fun x hx => hu x (List.mem_cons_of_mem _ hx)) hi.2

theorem findVnode_of_mem : ∀ (l : List SfsVnode), (∀ sv ∈ l, s.InUse sv.svIno) →
    i ∈ l.map SfsVnode.svIno →
      findVnode i sfsTypeInval l s = (vopIncref i >>= fun _ => pure true : SfsM Bool) s
  | [], _, hi => absurd hi List.not_mem_nil
  | sv :: l, hu, hi => by
    unfold findVnode
    rw [Call.bind_of_ok (sfsBused_eq (hu sv List.mem_cons_self)), if_neg (by decide)]
    split_ifs with hsv
    · rfl
    · rw [List.map_cons, List.mem_cons] at hi
      exact findVnode_of_mem l (fun x hx => hu x (List.mem_cons_of_mem _ hx))
        (hi.resolve_left (Ne.symm hsv))

/-- An inode that is not in memory is read from its block. -/
theorem readVnode_does {d : DiskBlock} {dirty : Bool} {Q : Except Errno Unit → Sfs → Prop}
    (h : s.Ok loose) (hu : s.InUse i) (hforce : forceType t (s.disk i) = .ok (d, dirty))
    (ht : sfiType d = sfsTypeFile ∨ sfiType d = sfsTypeDir)
    (hfail : ∀ e s', Quiet s loose s' → s'.leaked = s.leaked → Q (.error e) s')
    (hdone : Next s s.memoryDone.ioDone.memoryDone → Q (.ok ())
      (s.memoryDone.ioDone.memoryDone.withVolume (s.addVnode ⟨d, i, dirty, 1⟩))) :
    (readVnode i t).Does ok s Q := by
  have hq₁ := (Quiet.refl h).memoryDone
  have hq₂ := hq₁.ioDone
  have hq₃ := hq₂.memoryDone
  unfold readVnode
  rw [Call.does_bind_of_ok (kmallocAnswer_eq s)]
  split_ifs
  · exact hfail _ _ hq₁ rfl
  rw [Call.does_bind_of_ok (sfsBused_eq (show s.memoryDone.InUse i from hu)), if_neg (by decide)]
  refine does_readblock (hu.1.trans_le h.device) (fun _ => hfail _ _ hq₂ rfl) fun _ => ?_
  rw [Call.does_lift_bind (show forceType t (s.memoryDone.disk i) = _ from hforce), if_pos ht,
    Call.does_bind_of_ok (kmallocAnswer_eq _)]
  split_ifs
  · exact hfail _ _ hq₃ rfl
  · exact hdone hq₃.next

theorem sfsLoadvnode_does (h : s.Ok loose) (hi : s.Live i)
    (ht : (s.abs.file i).type = sfsTypeFile ∨ (s.abs.file i).type = sfsTypeDir) :
    (sfsLoadvnode i sfsTypeInval).Does ok s fun r s' => match r with
      | .ok _ => Shows s loose (s.abs.addRef i) s'
      | .error _ => Quiet s loose s' := by
  have hu : ∀ sv ∈ s.sfsVnodes, s.InUse sv.svIno := fun sv hsv =>
    h.inUse_of_live (live_of_mem hsv)
  unfold sfsLoadvnode
  rw [Call.does_get_bind]
  by_cases hl : s.Loaded i
  · obtain ⟨sv, hsv⟩ := hl.exists
    have hfind := findVnode_of_mem (s := s) s.sfsVnodes hu (loaded_iff.mp hl)
    have hinc : (vopIncref i).Does ok s _ := vopIncref_does h hsv
    refine Call.Does.bind (P := fun r s' => r = .ok true ∧ Shows s loose (s.abs.addRef i) s')
      ?_ ?_ ?_
    · exact (Call.does_congr hfind).mpr
        (hinc.bind (fun e s' he => absurd he.1 (by simp)) fun _ s' hs' => ⟨rfl, hs'.2⟩)
    · rintro e s' ⟨he, -⟩
      exact absurd he (by simp)
    · rintro found s' ⟨hf, hs'⟩
      cases hf
      exact hs'
  · rw [Call.does_bind_of_ok (findVnode_of_not_mem s.sfsVnodes hu (mt loaded_iff.mpr hl))]
    rw [type_of_live hi, inode_of_not_loaded hl] at ht
    refine readVnode_does h (h.inUse_of_live hi) rfl ht (fun _ _ hq _ => hq) fun hn => ?_
    obtain ⟨hp, habs, href⟩ := h.load hi hl
    refine ⟨hp, ?_, hn.volume _, .of_iff href⟩
    unfold Fs.addRef
    rw [refs_of_not_loaded hl]
    exact habs

/-! ## `sfs_makeobj` -/

theorem forceType_new :
    forceType sfsTypeFile zeroBlock = .ok (setSfiType sfsTypeFile zeroBlock, true) := by
  have h0 : sfiType zeroBlock = sfsTypeInval := by
    have : getWord zeroBlock 1 = 0 := getWord_zero 1
    rfl
  unfold forceType
  rw [if_pos (by decide), kassert_pos h0]
  rfl

/-- The block of a new inode. -/
theorem readVnode_new (h : s.Ok (insert b loose)) (hz : s.disk b = zeroBlock)
    (hfresh : ∀ x, x ∈ loose ∪ {x | x ∈ s.leaked} ↔
      x ∈ insert b loose ∪ {x | x ∈ s.leaked} ∧ x ≠ b) :
    (readVnode b sfsTypeFile).Does ok s fun r s' => match r with
      | .ok _ => Shows s loose (s.abs.addFile b) s'
      | .error _ => Quiet s (insert b loose) s' ∧ s'.leaked = s.leaked := by
  have hb : b ∈ insert b loose ∪ {x | x ∈ s.leaked} := Or.inl (Set.mem_insert b loose)
  have hforce : forceType sfsTypeFile (s.disk b) =
      .ok (setSfiType sfsTypeFile zeroBlock, true) := by
    rw [hz, forceType_new]
  refine readVnode_does h (h.held.marked_loose hb) hforce
    (Or.inl (sfiType_setSfiType _ _ (by decide))) (fun _ _ hq hl => ⟨hq, hl⟩) fun hn => ?_
  have hzero : ∀ k, getWord zeroBlock k = 0 := getWord_zero
  obtain ⟨hp, habs, hg⟩ := h.loadNew (d := setSfiType sfsTypeFile zeroBlock) hb
    ((sfiIndirect_setSfiType _ _).trans (hzero 17))
    (fun k _ => (sfiDirect_setSfiType _ _ _).trans (hzero (2 + k))) hfresh
  exact ⟨hp, habs, hn.volume _, hg⟩

theorem sfsMakeobj_does (h : s.Ok loose) :
    (sfsMakeobj sfsTypeFile).Does ok s fun r s' => match r with
      | .ok b => ¬s.Live b ∧ Shows s loose (s.abs.addFile b) s'
      | .error _ => Quiet s loose s' := by
  refine (sfsBalloc_does h).bind (fun e s' hq => hq.1) fun b s₁ hal => ?_
  have hq := hal.quiet
  have hdead : ¬s₁.Live b := fun hl =>
    hq.ok.held.disj (show s₁.Ref (.inode b) b from ⟨hl, rfl⟩) hal.mem
  have hdead' : ¬s.Live b := by
    rw [← h.abs_live, ← hq.abs, hq.ok.abs_live]
    exact hdead
  have hu : ∀ sv ∈ s₁.sfsVnodes, s₁.InUse sv.svIno := fun sv hsv =>
    hq.ok.inUse_of_live (live_of_mem hsv)
  have hload : (sfsLoadvnode b sfsTypeFile).Does ok s₁ fun r s' => match r with
      | .ok _ => Shows s₁ loose (s₁.abs.addFile b) s'
      | .error _ => Quiet s₁ (insert b loose) s' ∧ s'.leaked = s₁.leaked := by
    unfold sfsLoadvnode
    rw [Call.does_get_bind, Call.does_bind_of_ok (findVnode_of_not_mem s₁.sfsVnodes hu
      fun hmem => hdead (loaded_iff.mpr hmem).live)]
    exact readVnode_new hq.ok hal.zero hal.loose_iff
  refine hload.attempt_bind fun r s₂ hr => ?_
  cases r with
  | ok _ =>
    refine ⟨hdead', hr.ok, ?_, hq.next.trans hr.next, hq.grows.trans hr.grows⟩
    rw [hr.abs, hq.abs]
  | error e =>
    obtain ⟨hr, hleak⟩ := hr
    -- The block is given back.
    have hb : b ∈ insert b loose ∪ {x | x ∈ s₂.leaked} := Or.inl (Set.mem_insert b loose)
    have hu₂ := hr.ok.held.marked_loose hb
    obtain ⟨freemap, heq, hn, -, hm⟩ := sfsBfree_eq hr.ok.wf (hr.ok.lt_nbits hu₂) hu₂.2
    rw [Call.does_bind_of_ok heq]
    have hfresh := hal.loose_iff
    rw [← hleak] at hfresh
    refine ⟨hr.ok.unmark (D := {b}) (Set.singleton_subset_iff.mpr hb) hn hm hfresh, ?_,
      (hq.next.trans hr.next).volume _,
      hq.grows.trans (hr.grows.trans (.of_iff fun _ _ => Iff.rfl))⟩
    exact hr.abs.trans hq.abs

/-! ## Writing an inode back -/

/-- The roles are the same. -/
def SameRoles (v v' : Volume) : Prop :=
  ∀ o x, v'.Ref o x ↔ v.Ref o x

theorem sfsSyncInode_does (h : s.Ok loose) (hi : s.loaded i = some sv) :
    (sfsSyncInode i).Does ok s fun r s' => Quiet s loose s' ∧ SameRoles s.toVolume s'.toVolume ∧
      (match r with
        | .ok _ => ∃ sv', s'.loaded i = some sv' ∧ sv'.svI = sv.svI ∧ sv'.svDirty = false ∧
            sv'.vnRefcount = sv.vnRefcount
        | .error _ => ¬s.IoOk) := by
  unfold sfsSyncInode
  rw [Call.does_bind_of_ok (getVnode_eq hi)]
  split_ifs with hd
  · rw [(loaded_eq_some hi).2]
    refine does_writeblock_bind
      (h.lt_device (show s.Ref (.inode i) i from ⟨live_of_loaded hi, rfl⟩))
      (fun hio => ⟨(Quiet.refl h).ioDone, fun _ _ => Iff.rfl, fun hok => hio (hok 0)⟩) fun _ => ?_
    obtain ⟨hp, habs, href⟩ := h.writeInode hi
    have hi₁ : (s.setDisk i sv.svI).loaded i = some sv := hi
    obtain ⟨hp', habs', href'⟩ := hp.setCount (f := fun sv => { sv with svDirty := false })
      (fun _ => rfl) (fun _ => rfl) hi₁ (h.counted sv (loaded_eq_some hi).1)
      fun _ => (disk_setDisk_self s.toVolume i sv.svI).symm
    have hrefs : s.abs.setRefs i sv.vnRefcount = s.abs := by
      rw [← show s.abs.refs i = sv.vnRefcount from refs_of_loaded hi]
      exact Fs.setRefs_self _ _
    have hsame : SameRoles s.toVolume ((s.setDisk i sv.svI).updateVnode i
      fun sv => { sv with svDirty := false }) := fun o x => (href' o x).trans (href o x)
    refine ⟨⟨hp', ?_, (Next.ioDone s).volume _, .of_iff hsame⟩, hsame, { sv with svDirty := false },
      loaded_updateVnode_self (fun _ => rfl) hi₁, rfl, rfl, rfl⟩
    rw [habs] at habs'
    exact habs'.trans hrefs
  · exact ⟨Quiet.refl h, fun _ _ => Iff.rfl, sv, hi, rfl, Bool.eq_false_iff.mpr hd, rfl⟩

/-! ## Dropping a reference -/

theorem removeVnode_eq (hi : s.loaded i = some sv) (hc : sv.vnRefcount = 1) :
    removeVnode i s = .ok (.ok (), s.withVolume (s.dropVnode i)) := by
  unfold removeVnode
  rw [Call.get_bind_apply, hi]
  dsimp only
  rw [Call.bind_of_ok (show onVolume _ s = .ok (.ok (), s.withVolume (s.dropVnode i)) from rfl),
    kassert_pos hc]
  rfl

/-- A reference to `i` was dropped, but the vnode may be there yet if the device failed. -/
structure Dropped (i : ℕ) (s : Sfs) (loose : Set ℕ) (s' : Sfs) : Prop where
  ok : s'.Ok loose
  next : Next s s'
  shrinks : Shrinks i s.toVolume s'.toVolume
  abs : s'.abs = s.abs.decref i ∨ ¬s.IoOk ∧ ∃ f, s'.abs = s.abs.setFile i f ∧
    f.type = (s.abs.file i).type ∧ f.links = (s.abs.file i).links ∧
    ((s.abs.file i).links ≠ 0 → f = s.abs.file i)
  keeps : s.IoOk → s'.Live i → SameRoles s.toVolume s'.toVolume

/-- Reclaiming a file with a name. -/
theorem sfsReclaim_named (h : s.Ok loose) (hi : s.loaded i = some sv) (hc : sv.vnRefcount = 1)
    (hl : (s.abs.file i).links ≠ 0) (hstay : i = 1 ∨ (s.abs.file 1).Names i) :
    (sfsReclaim i).Does ok s fun _ s' => Dropped i s loose s' := by
  have hlive := live_of_loaded hi
  have hl' : sfiLinkcount sv.svI ≠ 0 := by
    rw [links_of_live hlive, inode_of_loaded hi] at hl
    exact hl
  have hdec : s.abs.decref i = s.abs.setRefs i 0 := by
    unfold Fs.decref
    rw [show s.abs.refs i = 1 from (refs_of_loaded hi).trans hc, if_neg (by decide), if_neg hl]
  unfold sfsReclaim
  rw [Call.does_bind_of_ok (getVnode_eq hi), if_neg (not_not.mpr hc)]
  have herase : eraseUnlinked i s = .ok (.ok (), s) := by
    unfold eraseUnlinked
    rw [Call.bind_of_ok (getVnode_eq hi), if_neg hl']
    rfl
  rw [Call.does_bind_of_ok herase]
  refine (sfsSyncInode_does h hi).bind ?_ ?_
  · rintro e s₁ ⟨hq, hsame, hio⟩
    refine ⟨hq.ok, hq.next, .of_iff hsame, Or.inr ⟨hio, s.abs.file i, ?_, rfl, rfl, fun _ => rfl⟩,
      fun hok => absurd hok hio⟩
    rw [hq.abs, Fs.setFile_self]
  · rintro _ s₁ ⟨hq, hsame, sv₁, hi₁, hd₁, hclean, hc₁⟩
    have hdisc : discardUnlinked i s₁ = .ok (.ok (), s₁) := by
      unfold discardUnlinked
      rw [Call.bind_of_ok (getVnode_eq hi₁), hd₁, if_neg hl']
      rfl
    rw [Call.does_bind_of_ok hdisc]
    refine Call.does_of_eq (removeVnode_eq hi₁ (hc₁.trans hc)) ?_
    have hstay₁ : i = 1 ∨ (s₁.view 1).Names i := by
      rw [← abs_file (v := s₁.toVolume) live_root, hq.abs]
      exact hstay
    obtain ⟨hp, habs, href⟩ := hq.ok.unload hi₁ hstay₁ (hq.ok.clean_of_loaded hi₁ hclean)
    have hroles : SameRoles s.toVolume (s₁.dropVnode i) := fun o x =>
      (href o x).trans (hsame o x)
    refine ⟨hp, hq.next.volume _, .of_iff hroles, Or.inl ?_, fun _ _ => hroles⟩
    rw [hdec, ← hq.abs]
    exact habs

theorem Trimmed.dropped (h : Trimmed i s loose s') (hio : ¬s.IoOk)
    (hl : (s.abs.file i).links = 0) : Dropped i s loose s' := by
  obtain ⟨f, habs, ht, hl'⟩ := h.abs
  exact ⟨h.ok, h.next, h.shrinks, Or.inr ⟨hio, f, habs, ht, hl', fun h0 => absurd hl h0⟩,
    fun hok => absurd hok hio⟩

/-- The last reference to a file without blocks and names : the inode is freed, and the vnode
leaves the table. -/
theorem discardUnlinked_does (h : s.Ok loose) (hi : s.loaded i = some sv)
    (hc : sv.vnRefcount = 1) (hi1 : i ≠ 1) (hl : sfiLinkcount sv.svI = 0)
    (hgone : ¬(s.abs.file 1).Names i) (hhol : s.Hollow i) :
    (discardUnlinked i >>= fun _ => removeVnode i).Does ok s fun _ s' => s'.Ok loose ∧ Next s s' ∧
      s'.abs = (s.abs.setFile i FileView.none).setRefs i 0 ∧
      Shrinks i s.toVolume s'.toVolume ∧ ¬s'.Live i := by
  have hlive := live_of_loaded hi
  have href : s.Ref (.inode i) i := ⟨hlive, rfl⟩
  have hu := h.inUse_of_live hlive
  obtain ⟨freemap, heq, hn, -, hm⟩ := sfsBfree_eq h.wf (h.lt_nbits hu) hu.2
  have hdisc : discardUnlinked i s = .ok (.ok (), s.withVolume (s.setMap freemap)) := by
    unfold discardUnlinked
    rw [Call.bind_of_ok (getVnode_eq hi), if_pos hl, (loaded_eq_some hi).2]
    exact heq
  have hrem : removeVnode i (s.withVolume (s.setMap freemap)) =
    .ok (.ok (), s.withVolume ((s.dropVnode i).setMap freemap)) := removeVnode_eq hi hc
  rw [Call.does_bind_of_ok hdisc]
  refine Call.does_of_eq hrem ?_
  rw [Hollow, inode_of_loaded hi] at hhol
  rw [abs_file (v := s.toVolume) live_root] at hgone
  obtain ⟨hp, habs, hshr, hdead⟩ := h.discard hi hi1 hgone hhol.1 hhol.2
  refine ⟨hp.unmark (D := {i}) ?_ hn hm fun k => ?_, (Next.refl s).volume _, habs,
    hshr.setMap _, hdead⟩
  · exact Set.singleton_subset_iff.mpr (Set.mem_insert _ _)
  · refine ⟨fun hk => ⟨Or.inr hk, ?_⟩, fun hk => hk.1.resolve_left hk.2⟩
    rintro rfl
    exact h.held.disj href hk

/-- Reclaiming a file without a name. -/
theorem sfsReclaim_unlinked (h : s.Ok loose) (hi : s.loaded i = some sv)
    (hc : sv.vnRefcount = 1) (hi1 : i ≠ 1) (hl : (s.abs.file i).links = 0)
    (hgone : ¬(s.abs.file 1).Names i) :
    (sfsReclaim i).Does ok s fun _ s' => Dropped i s loose s' := by
  have hlive := live_of_loaded hi
  have hl' : sfiLinkcount sv.svI = 0 := by
    rw [links_of_live hlive, inode_of_loaded hi] at hl
    exact hl
  have hdec : s.abs.decref i = (s.abs.setFile i FileView.none).setRefs i 0 := by
    unfold Fs.decref
    rw [show s.abs.refs i = 1 from (refs_of_loaded hi).trans hc, if_neg (by decide), if_pos hl]
  unfold sfsReclaim
  rw [Call.does_bind_of_ok (getVnode_eq hi), if_neg (not_not.mpr hc)]
  have herase : (eraseUnlinked i).Does ok s fun r s' => match r with
      | .ok _ => Trimmed i s loose s' ∧ s'.Hollow i
      | .error _ => ¬s.IoOk ∧ Trimmed i s loose s' := by
    unfold eraseUnlinked
    rw [Call.does_bind_of_ok (getVnode_eq hi), if_pos hl']
    refine (sfsItrunc_does 0 h hi hi1).mono fun r s' hr => ?_
    cases r with
    | ok _ => exact ⟨hr.1, hr.2 (by decide)⟩
    | error e => exact ⟨hr.1, hr.2.resolve_right fun ht => absurd ht.1 (by decide)⟩
  refine herase.bind (fun e s₁ he => he.2.dropped he.1 hl) ?_
  rintro _ s₁ ⟨ht, hhol⟩
  obtain ⟨f, habs₁, -, hlinks⟩ := ht.abs
  obtain ⟨sv₁, hi₁⟩ := ht.exists_loaded h hi
  refine (sfsSyncInode_does ht.ok hi₁).bind ?_ ?_
  · rintro e s₂ ⟨hq, hsame, hio⟩
    refine Trimmed.dropped ⟨hq.ok, ht.next.trans hq.next, ht.shrinks.trans (.of_iff hsame), ?_⟩
      (fun hok => hio (ht.next.io hok)) hl
    rw [hq.abs]
    exact ht.abs
  · rintro _ s₂ ⟨hq, hsame, sv₂, hi₂, hd₂, -, hc₂⟩
    have hc₁ : sv₁.vnRefcount = 1 := by
      have hr : s₁.abs.refs i = s.abs.refs i := by rw [habs₁]; rfl
      rw [← hc, ← show s.abs.refs i = sv.vnRefcount from refs_of_loaded hi, ← hr]
      exact (refs_of_loaded hi₁).symm
    have hl₂ : sfiLinkcount sv₂.svI = 0 := by
      rw [← inode_of_loaded hi₂, ← links_of_live (live_of_loaded hi₂), hq.abs, habs₁,
        Fs.setFile_file, hlinks, hl]
    have hgone₂ : ¬(s₂.abs.file 1).Names i := by
      rw [hq.abs, habs₁, Fs.setFile_file_ne _ hi1.symm]
      exact hgone
    have hhol₂ : s₂.Hollow i := by
      rw [Hollow, inode_of_loaded hi₁] at hhol
      rw [Hollow, inode_of_loaded hi₂, hd₂]
      exact hhol
    refine (discardUnlinked_does hq.ok hi₂ (hc₂.trans hc₁) hi1 hl₂ hgone₂ hhol₂).mono ?_
    rintro _ s₃ ⟨hok, hnext, habs, hshr, hdead⟩
    refine ⟨hok, ht.next.trans (hq.next.trans hnext),
      ht.shrinks.trans ((Shrinks.of_iff hsame).trans hshr), Or.inl ?_, fun _ hl => absurd hl hdead⟩
    rw [habs, hq.abs, habs₁, Fs.setFile_setFile, hdec]

/-- `VOP_DECREF` of a vnode whose link count is right. -/
theorem vopDecref_does (h : s.Ok loose) (hi : s.loaded i = some sv)
    (hroot : i = 1 → (s.abs.file i).links ≠ 0)
    (hlinks : i ≠ 1 → ((s.abs.file i).links = 0 ↔ ¬(s.abs.file 1).Names i)) :
    (vopDecref i).Does ok s fun r s' => r = .ok () ∧ Dropped i s loose s' := by
  have hr : s.abs.refs i = sv.vnRefcount := refs_of_loaded hi
  have hpos := h.counted sv (loaded_eq_some hi).1
  unfold vopDecref
  rw [Call.does_bind_of_ok (getVnode_eq hi), Call.does_lift_bind (kassert_pos hpos _)]
  split_ifs with hc
  · obtain ⟨hp, habs, href⟩ := h.setCount
      (f := fun sv => { sv with vnRefcount := sv.vnRefcount - 1 }) (fun _ => rfl) (fun _ => rfl) hi
      (Nat.sub_pos_of_lt hc) fun hd => h.clean_of_loaded hi hd
    refine ⟨rfl, hp, (Next.refl s).volume _, .of_iff href, Or.inl ?_, fun _ _ => href⟩
    unfold Fs.decref
    rw [hr, if_pos hc]
    exact habs
  · have hc1 : sv.vnRefcount = 1 := by omega
    have hrec : (sfsReclaim i).Does ok s fun _ s' => Dropped i s loose s' := by
      by_cases hl : (s.abs.file i).links = 0
      · have hi1 : i ≠ 1 := fun h1 => hroot h1 hl
        exact sfsReclaim_unlinked h hi hc1 hi1 hl ((hlinks hi1).mp hl)
      · refine sfsReclaim_named h hi hc1 hl ?_
        by_cases hi1 : i = 1
        · exact Or.inl hi1
        · exact Or.inr (not_not.mp fun hno => hl ((hlinks hi1).mpr hno))
    exact hrec.attempt_bind fun _ s' hs' => ⟨rfl, hs'⟩

end OS161
