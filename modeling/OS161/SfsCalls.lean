import OS161.SfsDirCalls

/-!
# `sfs_vnops.c` : names

The specifications of the operations on names, `sfs_creat`, `sfs_link`, `sfs_remove`,
`sfs_rename` and `sfs_lookup`. Between two of them the volume has its invariant and the files
fit together; `Orderly` says that an operation leads from one such state to another, whatever
the device answers. If it answers every request, the file system becomes exactly what the
operation says, and an operation that returns an error has changed nothing. The one panic that
a failing device can cause is that of `sfs_rename` when it cannot undo its first step.
-/

namespace OS161

open Sfs Volume Function

/-! ## What an operation leaves behind -/

namespace Volume

variable {v v' v'' : Volume} {o : Role} {b i : ℕ}

theorem Ref.live (h : v.Ref o b) (ho : o.file = some i) : v.Live i := by
  cases o with
  | super => cases ho
  | freemap j => cases ho
  | inode j | indirect j | data j fb =>
    cases ho
    exact h.1

/-- The blocks of a file are kept as long as it lives, and free afterwards. -/
def Releases (v v' : Volume) : Prop :=
  ∀ {o b i}, o.file = some i → v.Ref o b → (v'.Live i → v'.Ref o b) ∧ (¬v'.Live i → ¬v'.InUse b)

theorem Grows.releases (h : Grows v v') : Releases v v' := fun ho hR =>
  ⟨fun _ => h.keeps hR, fun hd => absurd ((h.keeps hR).live ho) hd⟩

end Volume

/-- An operation has led from `s` to a state with the invariants. -/
structure Kept (s s' : Sfs) : Prop where
  ok : s'.Ok ∅
  wf : s'.abs.WF
  next : Next s s'

/-- An operation on names has led from `s` to `s'`. -/
structure Orderly (s s' : Sfs) : Prop extends Kept s s' where
  releases : s.IoOk → Releases s.toVolume s'.toVolume

variable {ok : Halt → Prop} {s s₁ s₂ s' : Sfs} {loose : Set ℕ} {i k : ℕ} {sv : SfsVnode}
  {name : CString} {a : Fs}

theorem Sfs.Shows.orderly (h : Shows s ∅ a s') (hwf : a.WF) : Orderly s s' :=
  ⟨⟨h.ok, h.abs ▸ hwf, h.next⟩, fun _ => h.grows.releases⟩

theorem Dropped.wf (h : Dropped i s loose s') (hwf : s.abs.WF) (hi : s.abs.Live i) :
    s'.abs.WF := by
  rcases h.abs with habs | ⟨-, f, habs, ht, hl, hsame⟩
  · rw [habs]
    exact hwf.decref hi
  · rw [habs]
    by_cases hi1 : i = 1
    · subst hi1
      rw [hsame hwf.root.links, Fs.setFile_self]
      exact hwf
    · exact hwf.setFile hi1 ht hl

/-- An operation that drops a reference at the end. -/
theorem Dropped.orderly (hs : s.Ok ∅) (h₁ : Shows s ∅ a s₁) (hwf : a.WF) (hi : a.Live i)
    (h : Dropped i s₁ ∅ s') : Orderly s s' where
  ok := h.ok
  wf := h.wf (h₁.abs ▸ hwf) (h₁.abs ▸ hi)
  next := h₁.next.trans h.next
  releases hio := by
    intro o b j ho hR
    have hR₁ := h₁.grows.keeps hR
    by_cases hj : j = i
    · subst hj
      refine ⟨fun hl => (h.keeps (h₁.next.io hio) hl o b).mpr hR₁, fun hd hu => ?_⟩
      rcases (h.ok.held.mem b).mp hu with hb | ⟨o', ho'⟩
      · -- A block that was lost has no role.
        refine hs.held.disj hR (Or.inr ?_)
        have hleak := (h₁.next.trans h.next).leaked hio
        rcases hb with hb | hb
        · exact absurd hb (Set.notMem_empty b)
        · exact hleak ▸ hb
      · have := h₁.ok.held.inj (h.shrinks.old ho') hR₁
        subst this
        exact hd (ho'.live ho)
    · have hR' := h.shrinks.keeps (by rw [ho]; exact fun he => hj (Option.some.inj he)) hR₁
      exact ⟨fun _ => hR', fun hd => absurd (hR'.live ho) hd⟩

/-- `VOP_DECREF` in a state where the files fit together. -/
theorem vopDecref_wf (h : s.Ok loose) (hwf : s.abs.WF) (hi : s.abs.refs i ≠ 0) :
    (vopDecref i).Does ok s fun r s' => r = .ok () ∧ Dropped i s loose s' := by
  obtain ⟨sv, hsv⟩ := Ok.exists_loaded hi
  have hlive : s.abs.Live i := Or.inr (Or.inl hi)
  refine vopDecref_does h hsv ?_ fun hi1 => hwf.links_eq_zero hlive hi1
  rintro rfl
  exact hwf.root.links

/-! ## Link counts -/

/-- A change to the link count of a file in memory. -/
theorem changeLinks {g : SfsVnode → SfsVnode} {n : ℕ} (h : s.Ok loose)
    (hi : s.loaded i = some sv) (hi1 : i ≠ 1) (hn : n < 2 ^ 16)
    (hg : ∀ sv, g sv = { sv with svI := (g sv).svI, svDirty := (g sv).svDirty })
    (hgi : (g sv).svI = setSfiLinkcount n sv.svI) (hd : (g sv).svDirty = true) :
    Shows s loose (s.abs.setLinks i n) (s.withVolume (s.updateVnode i g)) := by
  have hino : ∀ sv, (g sv).svIno = sv.svIno := fun sv => by rw [hg sv]
  have hrc : (g sv).vnRefcount = sv.vnRefcount := by rw [hg sv]
  have hfile := abs_file_of_loaded hi
  have hview : viewOf s.disk (g sv).svI = { s.abs.file i with links := n } := by
    rw [hgi, viewOf_attrs (d := sv.svI) (by simp) (by simp), hfile]
    simpa [viewOf] using hn
  have hpos := h.counted sv (loaded_eq_some hi).1
  have hclean : (g sv).svDirty ≠ false := by simp [hd]
  obtain ⟨hp, href⟩ := h.setAttrs hino hi (hrc ▸ hpos) (fun hd' => absurd hd' hclean)
    (by simp [hgi]) (by simp [hgi]) fun h1 => absurd h1 hi1
  refine ⟨hp, ?_, (Next.refl s).volume _, .of_iff href⟩
  have habs := abs_update hino hi fun h1 => absurd h1 hi1
  rw [hview, hrc, ← show s.abs.refs i = sv.vnRefcount from refs_of_loaded hi] at habs
  exact habs.trans (Fs.setRefs_self _ _)

/-- The vnode is in memory and dirty. -/
def IsDirty (v : Volume) (i : ℕ) : Prop :=
  ∃ sv, v.loaded i = some sv ∧ sv.svDirty = true

theorem addLink_does (h : s.Ok loose) (hi : s.abs.refs i ≠ 0) (hi1 : i ≠ 1)
    (hlt : (s.abs.file i).links + 1 < 2 ^ 16) :
    (addLink i).Does ok s fun r s' => r = .ok () ∧ IsDirty s'.toVolume i ∧
      Shows s loose (s.abs.setLinks i ((s.abs.file i).links + 1)) s' := by
  obtain ⟨sv, hsv⟩ := Ok.exists_loaded hi
  have hl : sfiLinkcount sv.svI = (s.abs.file i).links := by
    rw [links_of_live (live_of_loaded hsv), inode_of_loaded hsv]
  refine ⟨rfl, ⟨_, loaded_updateVnode_self (fun _ => rfl) hsv, rfl⟩, ?_⟩
  refine changeLinks h hsv hi1 hlt (fun _ => rfl) ?_ rfl
  dsimp only
  rw [hl]

theorem dropLink_does (cond : String) (h : s.Ok loose) (hi : s.abs.refs i ≠ 0) (hi1 : i ≠ 1)
    (hpos : 0 < (s.abs.file i).links) :
    (dropLink i cond).Does ok s fun r s' => r = .ok () ∧
      Shows s loose (s.abs.setLinks i ((s.abs.file i).links - 1)) s' := by
  obtain ⟨sv, hsv⟩ := Ok.exists_loaded hi
  have hl : sfiLinkcount sv.svI = (s.abs.file i).links := by
    rw [links_of_live (live_of_loaded hsv), inode_of_loaded hsv]
  have hlt := sfiLinkcount_lt sv.svI
  unfold dropLink
  rw [Call.does_bind_of_ok (getVnode_eq hsv), Call.does_lift_bind (kassert_pos (hl ▸ hpos) cond)]
  refine ⟨rfl, changeLinks h hsv hi1 (by omega) (fun _ => rfl) ?_ rfl⟩
  dsimp only
  rw [hl]

/-! ## Names -/

/-- The name is bound to inode `i` in slot `k`. -/
def FileView.BindsTo (f : FileView) (name : CString) (k i : ℕ) : Prop :=
  f.Binds name.bytes k ∧ f.slotIno k = i

theorem FileView.BindsTo.namedAt {f : FileView} (h : f.BindsTo name k i) : f.NamedAt k i :=
  ⟨h.1.1, h.2 ▸ h.1.2.1, h.2⟩

/-- The name is new and can be bound in slot `k`. -/
structure FileView.Takes (f : FileView) (name : CString) (k : ℕ) : Prop where
  free : f.FreeSlot k
  unbound : ∀ k', ¬f.Binds name.bytes k'
  length_le : name.bytes.length ≤ 59

namespace Fs

theorem setRefs_setRefs (a : Fs) (i m n : ℕ) : (a.setRefs i m).setRefs i n = a.setRefs i n := by
  unfold setRefs
  rw [update_idem]

theorem setRefs_refs (a : Fs) (i n : ℕ) : (a.setRefs i n).refs i = n :=
  update_self _ _ _

theorem addRef_refs (a : Fs) (i : ℕ) : (a.addRef i).refs i = a.refs i + 1 :=
  a.setRefs_refs i _

theorem refs_addRef_ne_zero (j : ℕ) (h : a.refs i ≠ 0) : (a.addRef j).refs i ≠ 0 := by
  change update a.refs j (a.refs j + 1) i ≠ 0
  rw [update_apply]
  split_ifs
  · exact Nat.succ_ne_zero _
  · exact h

/-- A reference that is taken and dropped again. -/
theorem decref_addRef (h : a.refs i ≠ 0 ∨ (a.file i).links ≠ 0) : (a.addRef i).decref i = a := by
  have hfile : ((a.addRef i).file i).links = (a.file i).links := rfl
  unfold decref
  rw [addRef_refs, hfile]
  by_cases hr : a.refs i = 0
  · rw [hr, if_neg (by decide), if_neg (h.resolve_left (not_not.mpr hr)), addRef, setRefs_setRefs,
      ← hr, setRefs_self]
  · rw [if_pos (by omega), Nat.add_sub_cancel, addRef, setRefs_setRefs, setRefs_self]

/-- A new file that is dropped at once. -/
theorem decref_addFile (hf : a.file i = FileView.none) (hr : a.refs i = 0) :
    (a.addFile i).decref i = a := by
  have hlinks : ((a.addFile i).file i).links = 0 := congrArg FileView.links (a.setFile_file i _)
  have hrefs : (a.addFile i).refs i = 1 := Fs.setRefs_refs _ i 1
  unfold decref
  rw [hrefs, if_neg (by decide), if_pos hlinks]
  refine Fs.ext rfl ?_ ?_
  · change ((a.setFile i _).setFile i FileView.none).file = a.file
    rw [setFile_setFile, ← hf, setFile_self]
  · change update (update a.refs i 1) i 0 = a.refs
    rw [update_idem, ← hr, update_eq_self]

theorem bindName_eq (hi : i ≠ 1) : (a.setSlot k (direntry i name.bytes)).setLinks i
    (((a.setSlot k (direntry i name.bytes)).file i).links + 1) = a.bindName k name i := by
  rw [setSlot_file_ne hi]
  rfl

theorem unbindSlot_eq (hi : i ≠ 1) : (a.setSlot k (direntry 0 [])).setLinks i
    (((a.setSlot k (direntry 0 [])).file i).links - 1) = a.unbindSlot k i := by
  rw [setSlot_file_ne hi]
  rfl

end Fs

/-- What an operation on names does : the state fits together, and if the device works, then an
error has changed nothing. -/
def NamePost {α : Type} (P : α → Fs → Prop) (s : Sfs) (r : Except Errno α) (s' : Sfs) : Prop :=
  Orderly s s' ∧ (s.IoOk → match r with
    | .ok x => P x s'.abs
    | .error _ => s'.abs = s.abs)

section NamePost

variable {α : Type} {P : α → Fs → Prop} {x : α} {e : Errno} {r : Except Errno α}

theorem Sfs.Shows.namePost (h : Shows s ∅ a s') (hwf : a.WF) (hP : P x a) :
    NamePost P s (.ok x) s' :=
  ⟨h.orderly hwf, fun _ => by rw [h.abs]; exact hP⟩

theorem Sfs.Quiet.namePost (h : Quiet s ∅ s') (hwf : s.abs.WF) : NamePost P s (.error e) s' :=
  ⟨h.orderly hwf, fun _ => h.abs⟩

theorem Sfs.Shows.returns (h : Shows s ∅ a s') (hwf : a.WF) (hP : P x a) :
    (pure x : SfsM α).Does ok s' (NamePost P s) :=
  Call.does_pure.mpr (h.namePost hwf hP)

theorem Sfs.Quiet.fails (h : Quiet s ∅ s') (hwf : s.abs.WF) :
    (Call.fail e : SfsM α).Does ok s' (NamePost P s) :=
  Call.does_fail.mpr (Quiet.namePost h hwf)

theorem NamePost.after (hq : Quiet s ∅ s₁) (h : NamePost P s₁ r s') : NamePost P s r s' := by
  obtain ⟨hord, hP⟩ := h
  refine ⟨⟨⟨hord.ok, hord.wf, hq.next.trans hord.next⟩, fun hio => ?_⟩, fun hio => ?_⟩
  · exact fun ho hR => hord.releases (hq.next.io hio) ho (hq.grows.keeps hR)
  · rw [← hq.abs]
    exact hP (hq.next.io hio)

end NamePost

/-- A reference is dropped at the end of an operation. -/
theorem vopDecref_after (hs : s.Ok ∅) (h₁ : Shows s ∅ a s₁) (hwf : a.WF) (hi : a.refs i ≠ 0) :
    (vopDecref i).Does ok s₁ fun r s' => r = .ok () ∧ Orderly s s' ∧
      (s.IoOk → s'.abs = a.decref i) := by
  have hi₁ : s₁.abs.refs i ≠ 0 := by rwa [h₁.abs]
  refine (vopDecref_wf h₁.ok (by rwa [h₁.abs]) hi₁).mono ?_
  rintro r s' ⟨hr, hd⟩
  refine ⟨hr, hd.orderly hs h₁ hwf (Or.inr (Or.inl hi)), fun hio => ?_⟩
  rw [← h₁.abs]
  exact hd.abs.resolve_right fun h => h.1 (h₁.next.io hio)

/-- An operation that fails after it has dropped its reference. -/
theorem fail_after_decref {α : Type} {P : α → Fs → Prop} {e : Errno} (hs : s.Ok ∅)
    (h₁ : Shows s ∅ a s₁) (hwf : a.WF) (hi : a.refs i ≠ 0) (hback : a.decref i = s.abs) :
    (vopDecref i >>= fun _ => Call.fail e : SfsM α).Does ok s₁ (NamePost P s) := by
  refine (vopDecref_after hs h₁ hwf hi).bind (fun e' s' he => absurd he.1 (by simp)) ?_
  rintro _ s' ⟨-, hord, habs⟩
  exact ⟨hord, fun hio => (habs hio).trans hback⟩

/-- `sfs_dir_link` and what counting the link will do then. -/
theorem sfsDirLink_wf (h : s.Ok ∅) (hwf : s.abs.WF) (h1 : s.abs.refs 1 ≠ 0)
    (hi : s.abs.refs i ≠ 0) (hi1 : i ≠ 1) : (sfsDirLink 1 name i).Does ok s fun r s' => match r with
      | .ok k => (s.abs.file 1).Takes name k ∧ (s.abs.bindName k name i).WF ∧
          (addLink i).Does ok s' fun r s'' => r = .ok () ∧ IsDirty s''.toVolume i ∧
            Shows s ∅ (s.abs.bindName k name i) s''
      | .error _ => Quiet s ∅ s' := by
  have hlive : s.abs.Live i := Or.inr (Or.inl hi)
  refine (sfsDirLink_does h hwf.root h1 hi).mono ?_
  rintro r s' ⟨-, hr⟩
  cases r with
  | error e => exact hr
  | ok k =>
    obtain ⟨hfree, hno, hlen, hs'⟩ := hr
    obtain ⟨h0, h32⟩ := h.ino_bounds (h.abs_live.mp hlive)
    refine ⟨⟨hfree, hno, hlen⟩, hwf.bindName hi1 hi h0 h32 hfree hno hlen, ?_⟩
    have hi' : s'.abs.refs i ≠ 0 := by
      rw [hs'.abs]
      exact hi
    have hlinks : (s'.abs.file i).links = (s.abs.file i).links := by
      rw [hs'.abs, Fs.setSlot_file_ne hi1]
    have hle := hwf.links_le hlive hi1
    refine (addLink_does hs'.ok hi' hi1 (by omega)).mono ?_
    rintro r s'' ⟨hr, hd, hs''⟩
    refine ⟨hr, hd, ?_⟩
    have hall := hs'.trans hs''
    rwa [hs'.abs, Fs.bindName_eq hi1] at hall

/-! ## The operations -/

/-- A name is looked up, which takes a reference. -/
theorem sfsLookonce_wf (h : s.Ok ∅) (hwf : s.abs.WF) (h1 : s.abs.refs 1 ≠ 0) :
    (sfsLookonce 1 name).Does ok s fun r s' => match r with
      | .ok p => (s.abs.file 1).BindsTo name p.2 p.1 ∧ p.1 ≠ 1 ∧ (s.abs.addRef p.1).WF ∧
          Shows s ∅ (s.abs.addRef p.1) s'
      | .error _ => Quiet s ∅ s' := by
  refine (sfsLookonce_does h hwf h1).mono ?_
  rintro r s' hr
  cases r with
  | error e => exact hr
  | ok p =>
    obtain ⟨hb, hnamed, hs'⟩ := hr
    exact ⟨⟨hb, hnamed.2.2⟩, hwf.named ⟨_, hnamed⟩, hwf.addRef (Or.inr (Or.inr ⟨_, hnamed⟩)), hs'⟩

theorem sfsLookup_does (h : s.Ok ∅) (hwf : s.abs.WF) (h1 : s.abs.refs 1 ≠ 0) :
    (sfsLookup 1 name).Does ok s (NamePost (fun i a =>
      ∃ k, (s.abs.file 1).BindsTo name k i ∧ a = s.abs.addRef i) s) := by
  refine (sfsLookonce_wf h hwf h1).bind (fun e s' hq => Quiet.namePost hq hwf) ?_
  rintro ⟨i, k⟩ s' ⟨hb, -, hwf', hs'⟩
  exact hs'.returns hwf' ⟨k, hb, rfl⟩

theorem sfsGetroot_does (h : s.Ok ∅) (hwf : s.abs.WF) :
    sfsGetroot.Does ok s (NamePost (fun i a => i = 1 ∧ a = s.abs.addRef 1) s) := by
  have hwf' : (s.abs.addRef 1).WF := hwf.addRef (Or.inl rfl)
  refine (sfsLoadvnode_does h live_root (Or.inr hwf.root.type)).bind
    (fun e s' hq => Quiet.namePost hq hwf) ?_
  rintro _ s' hs'
  have hrefs : s'.abs.refs 1 ≠ 0 := by
    rw [hs'.abs, Fs.addRef_refs]
    exact Nat.succ_ne_zero _
  obtain ⟨sv, hsv⟩ := Ok.exists_loaded hrefs
  have ht : sfiType sv.svI = sfsTypeDir := by
    rw [← inode_of_loaded hsv, ← type_of_live (live_of_loaded hsv), hs'.abs]
    exact hwf.root.type
  change (getVnode 1 >>= _).Does ok s' _
  rw [Call.does_bind_of_ok (getVnode_eq hsv), if_neg (not_not.mpr ht)]
  exact hs'.returns hwf' ⟨rfl, rfl⟩

/-- What `sfs_creat` does when there is no such name : a new file with this name. -/
theorem creatNew_does (h : s.Ok ∅) (hwf : s.abs.WF) (h1 : s.abs.refs 1 ≠ 0) :
    (creatNew 1 name).Does ok s (NamePost (fun i a => ¬s.abs.Live i ∧
      ∃ k, (s.abs.file 1).Takes name k ∧ a = (s.abs.addFile i).bindName k name i) s) := by
  refine (sfsMakeobj_does h).bind (fun e s' hq => Quiet.namePost hq hwf) fun i s₁ hs₁ => ?_
  obtain ⟨hdead, hs₁⟩ := hs₁
  have hdead' : ¬s.abs.Live i := mt h.abs_live.mp hdead
  have hi1 : i ≠ 1 := fun hi => hdead' (Or.inl hi)
  have hwf₁ : (s.abs.addFile i).WF := hwf.addFile hdead'
  have hroot : (s.abs.addFile i).file 1 = s.abs.file 1 := Fs.setFile_file_ne _ hi1.symm _
  have hrefs : (s.abs.addFile i).refs i ≠ 0 := by
    rw [show (s.abs.addFile i).refs i = 1 from Fs.setRefs_refs _ i 1]
    exact one_ne_zero
  have hback : (s.abs.addFile i).decref i = s.abs :=
    Fs.decref_addFile (abs_file_of_not_live hdead)
      (not_not.mp fun hr => hdead' (Or.inr (Or.inl hr)))
  have h1₁ : s₁.abs.refs 1 ≠ 0 := by
    rw [hs₁.abs]
    change update s.abs.refs i 1 1 ≠ 0
    rwa [update_of_ne hi1.symm]
  refine (sfsDirLink_wf hs₁.ok (by rwa [hs₁.abs]) h1₁ (by rwa [hs₁.abs]) hi1).attempt_bind ?_
  rintro r s₂ hr
  cases r with
  | error e => exact fail_after_decref h (hs₁.quiet hr) hwf₁ hrefs hback
  | ok k =>
    obtain ⟨htakes, hwf₂, hadd⟩ := hr
    rw [hs₁.abs] at htakes hwf₂ hadd
    rw [hroot] at htakes
    refine hadd.bind (fun e s' he => absurd he.1 (by simp)) ?_
    rintro _ s₃ ⟨-, -, hs₃⟩
    exact (hs₁.trans hs₃).returns hwf₂ ⟨hdead', k, htakes, rfl⟩

theorem sfsCreat_does (excl : Bool) (h : s.Ok ∅) (hwf : s.abs.WF) (h1 : s.abs.refs 1 ≠ 0) :
    (sfsCreat 1 name excl).Does ok s (NamePost (fun i a =>
      excl = false ∧ (∃ k, (s.abs.file 1).BindsTo name k i) ∧ a = s.abs.addRef i ∨
      ¬s.abs.Live i ∧ ∃ k, (s.abs.file 1).Takes name k ∧
        a = (s.abs.addFile i).bindName k name i) s) := by
  refine (sfsDirFindname_does h hwf.root h1).bind
    (fun e s₁ he => Quiet.namePost he.1 hwf) ?_
  rintro r s₁ ⟨hq, -, hr⟩
  obtain ⟨found, emptyslot⟩ := r
  cases found with
  | some p =>
    obtain ⟨i, k⟩ := p
    obtain ⟨hb, hino, -⟩ := hr.found rfl
    have hlive : s.abs.Live i := Or.inr (Or.inr ⟨k, hino ▸ hb.namedAt⟩)
    cases excl with
    | true => exact Quiet.fails hq hwf
    | false =>
      have hlive₁ : s₁.Live i := by
        rw [← hq.ok.abs_live, hq.abs]
        exact hlive
      have htype : (s₁.abs.file i).type = sfsTypeFile ∨ (s₁.abs.file i).type = sfsTypeDir := by
        rw [hq.abs]
        exact hwf.type_of_live hlive
      refine (sfsLoadvnode_does hq.ok hlive₁ htype).bind
        (fun e s₂ he => Quiet.namePost (hq.trans he) hwf) fun _ s₂ hs₂ => ?_
      have hall := Shows.trans hq hs₂
      rw [hq.abs] at hall
      exact hall.returns (hwf.addRef hlive) (Or.inl ⟨rfl, ⟨k, hb, hino⟩, rfl⟩)
  | none =>
    refine (creatNew_does hq.ok (by rwa [hq.abs]) (by rwa [hq.abs])).mono fun r s' hr => ?_
    rw [hq.abs] at hr
    refine NamePost.after hq ⟨hr.1, fun hio => ?_⟩
    cases r with
    | ok i => exact Or.inr (hr.2 hio)
    | error e => exact hr.2 hio

theorem sfsLink_does (h : s.Ok ∅) (hwf : s.abs.WF) (h1 : s.abs.refs 1 ≠ 0)
    (hi : s.abs.refs i ≠ 0) : (sfsLink 1 name i).Does ok s (NamePost (fun _ a =>
      i ≠ 1 ∧ ∃ k, (s.abs.file 1).Takes name k ∧ a = s.abs.bindName k name i) s) := by
  obtain ⟨sv, hsv⟩ := Ok.exists_loaded hi
  have ht := type_of_live (live_of_loaded hsv)
  rw [inode_of_loaded hsv] at ht
  unfold sfsLink
  rw [Call.does_bind_of_ok (getVnode_eq hsv), ← ht, (loaded_eq_some hsv).2]
  split_ifs with hd
  · exact Quiet.fails (Quiet.refl h) hwf
  · have hi1 : i ≠ 1 := by
      rintro rfl
      exact hd hwf.root.type
    refine (sfsDirLink_wf h hwf h1 hi hi1).bind (fun e s' hq => Quiet.namePost hq hwf) ?_
    rintro k s₁ ⟨htakes, hwf₁, hadd⟩
    refine hadd.mono ?_
    rintro _ s₂ ⟨rfl, -, hs₂⟩
    exact hs₂.namePost hwf₁ ⟨hi1, k, htakes, rfl⟩

/-- The link count of a file that is named. -/
theorem Fs.WF.links_pos (h : a.WF) (hk : (a.file 1).NamedAt k i) : 0 < (a.file i).links := by
  have hlive : a.Live i := Or.inr (Or.inr ⟨k, hk⟩)
  refine Nat.pos_of_ne_zero fun h0 => ?_
  exact (h.links_eq_zero hlive (h.named ⟨k, hk⟩)).mp h0 ⟨k, hk⟩

/-- Slot `k` with a name of file `i` is empty, and the link is to be taken off the count. -/
structure Unlinked (s : Sfs) (k i : ℕ) (s' : Sfs) : Prop where
  ok : s'.Ok ∅
  refs : s'.abs.refs i ≠ 0
  pos : 0 < (s'.abs.file i).links
  counted : ∀ s'', Shows s' ∅ (s'.abs.setLinks i ((s'.abs.file i).links - 1)) s'' →
    Shows s ∅ (s.abs.unbindSlot k i) s''

theorem sfsDirUnlink_wf (h : s.Ok ∅) (hwf : s.abs.WF) (h1 : s.abs.refs 1 ≠ 0)
    (hi : s.abs.refs i ≠ 0) (hk : (s.abs.file 1).NamedAt k i) :
    (sfsDirUnlink 1 k).Does ok s fun r s' => SameOthers 1 s.toVolume s'.toVolume ∧ match r with
      | .ok _ => Unlinked s k i s'
      | .error _ => Quiet s ∅ s' ∧ ¬s.IoOk := by
  have hi1 : i ≠ 1 := hwf.named ⟨k, hk⟩
  refine (sfsDirUnlink_does h hwf.root h1 hi hk).mono ?_
  rintro r s' ⟨hoth, hr⟩
  refine ⟨hoth, ?_⟩
  cases r with
  | error e => exact hr
  | ok _ =>
    have hs' : Shows s ∅ (s.abs.setSlot k (direntry 0 [])) s' := hr
    refine ⟨hs'.ok, ?_, ?_, fun s'' hs'' => ?_⟩
    · rw [hs'.abs]
      exact hi
    · rw [hs'.abs, Fs.setSlot_file_ne hi1]
      exact hwf.links_pos hk
    · have hall := hs'.trans hs''
      rwa [hs'.abs, Fs.unbindSlot_eq hi1] at hall

theorem sfsRemove_does (h : s.Ok ∅) (hwf : s.abs.WF) (h1 : s.abs.refs 1 ≠ 0) :
    (sfsRemove 1 name).Does ok s (NamePost (fun _ a => ∃ k i, (s.abs.file 1).BindsTo name k i ∧
      a = ((s.abs.addRef i).unbindSlot k i).decref i) s) := by
  refine (sfsLookonce_wf h hwf h1).bind (fun e s' hq => Quiet.namePost hq hwf) ?_
  rintro ⟨i, k⟩ s₁ ⟨hb, hi1, hwf₁, hs₁⟩
  have hrefs : (s.abs.addRef i).refs i ≠ 0 := by
    rw [Fs.addRef_refs]
    exact Nat.succ_ne_zero _
  have hlinks := hwf.links_pos hb.namedAt
  have hk₁ : (s₁.abs.file 1).NamedAt k i := by
    rw [hs₁.abs]
    exact hb.namedAt
  refine (sfsDirUnlink_wf hs₁.ok (by rwa [hs₁.abs]) (hs₁.abs ▸ Fs.refs_addRef_ne_zero i h1)
    (by rwa [hs₁.abs]) hk₁).attempt_bind ?_
  rintro r s₂ ⟨-, hr⟩
  cases r with
  | error e =>
    exact fail_after_decref h (hs₁.quiet hr.1) hwf₁ hrefs
      (Fs.decref_addRef (Or.inr (Nat.ne_of_gt hlinks)))
  | ok _ =>
    refine (dropLink_does _ hr.ok hr.refs hi1 hr.pos).bind
      (fun e s' he => absurd he.1 (by simp)) ?_
    rintro _ s₃ ⟨-, hs₃⟩
    have hs₃ := hr.counted s₃ hs₃
    rw [hs₁.abs] at hs₃
    refine (vopDecref_after h (hs₁.trans hs₃) (hwf₁.unbindSlot hrefs hb.namedAt) hrefs).mono ?_
    rintro _ s₄ ⟨rfl, hord, habs⟩
    exact ⟨hord, fun hio => ⟨k, i, hb, habs hio⟩⟩

/-- The files after a name has been bound in slot `k`. -/
theorem Fs.bindName_root (hi1 : i ≠ 1) :
    (a.bindName k name i).file 1 = (a.file 1).setEntry k (direntry i name.bytes) := by
  unfold Fs.bindName
  rw [Fs.setLinks_file_ne hi1.symm, Fs.setSlot_root]

/-- The message of the panic in `sfs_rename`. -/
def cannotRecover : Halt :=
  .panic "sfs: %s: rename: Cannot recover\n"

/-- The error recovery of `sfs_rename`, when file `i` has a new name in slot `k`. -/
theorem renameUndo_does {e : Errno} {P : Unit → Fs → Prop} (hok : ok cannotRecover) (h : s.Ok ∅)
    (hio : ¬s.IoOk) (h₁ : Shows s ∅ a s₁) (hwf : a.WF) (h1 : a.refs 1 ≠ 0) (hi : a.refs i ≠ 0)
    (hk : (a.file 1).NamedAt k i) (hd : IsDirty s₁.toVolume i) :
    (renameUndo 1 i k e).Does ok s₁ (NamePost P s) := by
  have hi1 : i ≠ 1 := hwf.named ⟨k, hk⟩
  have hwf₂ : (a.unbindSlot k i).WF := hwf.unbindSlot hi hk
  have habs := h₁.abs
  subst habs
  refine (sfsDirUnlink_wf h₁.ok hwf h1 hi hk).attempt_bind ?_
  rintro r s₂ ⟨hoth, hr⟩
  cases r with
  | error e' => exact hok
  | ok _ =>
    obtain ⟨sv, hsv, hdirty⟩ := hd
    have hsv₂ : s₂.loaded i = some sv := (hoth i hi1).trans hsv
    have hl : sfiLinkcount sv.svI = (s₂.abs.file i).links := by
      rw [links_of_live (live_of_loaded hsv₂), inode_of_loaded hsv₂]
    have hlt := sfiLinkcount_lt sv.svI
    -- The count is changed in memory only, but the inode is dirty already.
    have hs₃ := hr.counted _ (changeLinks hr.ok hsv₂ hi1 (by omega)
      (g := fun sv => { sv with svI := setSfiLinkcount (sfiLinkcount sv.svI - 1) sv.svI })
      (fun _ => rfl) (by rw [hl]) hdirty)
    refine (vopDecref_after h (h₁.trans hs₃) hwf₂ hi).bind
      (fun e' s' he => absurd he.1 (by simp)) ?_
    rintro _ s' ⟨-, hord, -⟩
    exact ⟨hord, fun h => absurd h hio⟩

/-- `sfs_rename` when the file has its new name in slot `k'`, too. -/
theorem renameFinish_does {n2 : CString} {k' : ℕ} (hok : ¬s.IoOk → ok cannotRecover) (h : s.Ok ∅)
    (h₁ : Shows s ∅ a s₁) (hwf : a.WF) (h1 : a.refs 1 ≠ 0) (hi : a.refs i ≠ 0)
    (hk : (a.file 1).NamedAt k i) (htakes : (a.file 1).Takes n2 k')
    (hwf' : (a.bindName k' n2 i).WF) (hadd : (addLink i).Does ok s₂ fun r s₃ => r = .ok () ∧
      IsDirty s₃.toVolume i ∧ Shows s₁ ∅ (a.bindName k' n2 i) s₃) :
    (renameFinish 1 i k k').Does ok s₂ (NamePost (fun _ a' =>
      a' = ((a.bindName k' n2 i).unbindSlot k i).decref i) s) := by
  have hi1 : i ≠ 1 := hwf.named ⟨k, hk⟩
  have hne : k ≠ k' := by
    rintro rfl
    exact htakes.free.not_namedAt hk
  have hnamed : ∀ j, ((a.bindName k' n2 i).file 1).NamedAt j i ↔
      j = k' ∧ i ≠ 0 ∧ sfdIno (direntry i n2.bytes) = i ∨ j ≠ k' ∧ (a.file 1).NamedAt j i := by
    intro j
    rw [Fs.bindName_root hi1]
    exact FileView.namedAt_setEntry htakes.free.le
  refine hadd.bind (fun e s' he => absurd he.1 (by simp)) ?_
  rintro _ s₃ ⟨-, hd, hs₃⟩
  have hk₃ : ((a.bindName k' n2 i).file 1).NamedAt k i := (hnamed k).mpr (Or.inr ⟨hne, hk⟩)
  have hs₃' := hs₃.abs
  refine (sfsDirUnlink_wf hs₃.ok (hs₃' ▸ hwf') (hs₃' ▸ h1) (hs₃' ▸ hi) (hs₃' ▸ hk₃)).attempt_bind ?_
  rintro r s₄ ⟨hoth, hr⟩
  cases r with
  | error e =>
    obtain ⟨hq, hfail⟩ := hr
    have hio : ¬s.IoOk := fun hio => hfail ((h₁.trans hs₃).next.io hio)
    obtain ⟨sv, hsv, hdirty⟩ := hd
    obtain ⟨-, h32⟩ := h₁.ok.ino_bounds (h₁.ok.abs_live.mp (Or.inr (Or.inl (h₁.abs ▸ hi))))
    have hk' := (hnamed k').mpr (Or.inl ⟨rfl, hk.2.1, sfdIno_direntry h32 n2.bytes⟩)
    exact renameUndo_does (hok hio) h hio ((h₁.trans hs₃).quiet hq) hwf' h1 hi hk'
      ⟨sv, (hoth i hi1).trans hsv, hdirty⟩
  | ok _ =>
    refine (dropLink_does _ hr.ok hr.refs hi1 hr.pos).bind
      (fun e s' he => absurd he.1 (by simp)) ?_
    rintro _ s₅ ⟨-, hs₅⟩
    have hs₅ := hr.counted s₅ hs₅
    rw [hs₃.abs] at hs₅
    refine (vopDecref_after h ((h₁.trans hs₃).trans hs₅) (hwf'.unbindSlot hi hk₃) hi).mono ?_
    rintro _ s₆ ⟨rfl, hord, habs⟩
    exact ⟨hord, habs⟩

theorem sfsRename_does {n1 n2 : CString} (hok : ¬s.IoOk → ok cannotRecover) (h : s.Ok ∅)
    (hwf : s.abs.WF) (h1 : s.abs.refs 1 ≠ 0) : (sfsRename 1 n1 1 n2).Does ok s
      (NamePost (fun _ a => ∃ k i k', (s.abs.file 1).BindsTo n1 k i ∧ (s.abs.file 1).Takes n2 k' ∧
        a = (((s.abs.addRef i).bindName k' n2 i).unbindSlot k i).decref i) s) := by
  unfold sfsRename
  refine (sfsLookonce_wf h hwf h1).bind (fun e s' hq => Quiet.namePost hq hwf) ?_
  rintro ⟨i, k⟩ s₁ ⟨hb, hi1, hwf₁, hs₁⟩
  have hrefs : (s.abs.addRef i).refs i ≠ 0 := by
    rw [Fs.addRef_refs]
    exact Nat.succ_ne_zero _
  have h1₁ : (s.abs.addRef i).refs 1 ≠ 0 := Fs.refs_addRef_ne_zero i h1
  have hs₁' := hs₁.abs
  obtain ⟨sv, hsv⟩ := Ok.exists_loaded (show s₁.abs.refs i ≠ 0 from hs₁' ▸ hrefs)
  have ht : sfiType sv.svI = sfsTypeFile := by
    rw [← inode_of_loaded hsv, ← type_of_live (live_of_loaded hsv), hs₁']
    exact hwf₁.file (Or.inr (Or.inl hrefs)) hi1
  rw [Call.does_bind_of_ok (getVnode_eq hsv), Call.does_lift_bind (kassert_pos ht _)]
  refine (sfsDirLink_wf hs₁.ok (hs₁' ▸ hwf₁) (hs₁' ▸ h1₁) (hs₁' ▸ hrefs) hi1).attempt_bind ?_
  rintro r s₂ hr
  cases r with
  | error e =>
    exact fail_after_decref h (hs₁.quiet hr) hwf₁ hrefs
      (Fs.decref_addRef (Or.inr (Nat.ne_of_gt (hwf.links_pos hb.namedAt))))
  | ok k' =>
    obtain ⟨htakes, hwf₂, hadd⟩ := hr
    rw [hs₁'] at htakes hwf₂ hadd
    refine (renameFinish_does hok h hs₁ hwf₁ h1₁ hrefs hb.namedAt htakes hwf₂ hadd).mono ?_
    rintro r s' ⟨hord, hP⟩
    refine ⟨hord, fun hio => ?_⟩
    cases r with
    | error e => exact hP hio
    | ok _ => exact ⟨k, i, k', hb, htakes, hP hio⟩

end OS161
