import OS161.SemfsNames

/-!
# The functions of `semfs` keep names, semaphores and vnodes in step

Every call returns, and leaves a state in step, whichever of its allocations fail
(`getvnode_spec`, `creat_spec`, `remove_spec`, `reclaim_spec`).

`semfs_creat` goes to `fail_uninsert` without an error code if there is no memory for the directory
entry, and returns `0` without a vnode (`semfs_creat_forgets`). `semfs_in_step_iff` says that this
is the only case in which it does not do what it should.
-/

namespace OS161

open SlotTable Function

namespace Semfs

variable {fs fs' : Semfs} {n e : ℕ} {sem : NamedSem} {a : SemfsAllocs} {name : CString}
  {dent : SemfsDirentry}

/-! ## Arrays -/

theorem arrayGet_eq {α : Type} {l : List (Option α)} {i : ℕ} (hi : i < l.length) :
    arrayGet l i = .ok (slot l i) := by
  rw [arrayGet, kassert_pos hi, ok_bind]

theorem arraySet_eq {α : Type} {l : List (Option α)} {i : ℕ} {x : Option α} (hi : i < l.length) :
    arraySet l i x = .ok (l.set i x) := by
  rw [arraySet, kassert_pos hi, ok_bind]

/-- The table has room for another semaphore. -/
def HasRoom (fs : Semfs) (a : SemfsAllocs) : Prop :=
  fs.semfsSems.length ≠ semfsRootdir ∧ (firstFree fs.semfsSems ≠ none ∨ a.semSlot = true)

theorem semInsert_cases (fs : Semfs) (sem : NamedSem) (a : SemfsAllocs)
    (hsize : fs.semfsSems.length ≤ semfsRootdir) :
    (∃ n sems, fs.semInsert sem a = .ok (n, { fs with semfsSems := sems }) ∧
      slot fs.semfsSems n = none ∧ slot sems = update (slot fs.semfsSems) n (some sem) ∧
      n < sems.length ∧ sems.length ≤ semfsRootdir ∧ fs.HasRoom a) ∨
    ∃ e, fs.semInsert sem a = .error e ∧ ¬fs.HasRoom a := by
  unfold semInsert
  by_cases hfull : fs.semfsSems.length = semfsRootdir
  · exact Or.inr ⟨_, if_pos hfull, fun h => h.1 hfull⟩
  rw [if_neg hfull]
  have hput : ∀ n, (put fs.semfsSems n (some sem)).length ≤ semfsRootdir := fun n =>
    length_put_le.trans (by omega)
  cases hfree : firstFree fs.semfsSems with
  | some i =>
    obtain ⟨hi, hslot⟩ := firstFree_some hfree
    refine Or.inl ⟨i, put fs.semfsSems i (some sem), ?_, hslot, slot_put hi.le,
      lt_length_put hi.le, hput i, hfull, Or.inl (by simp [hfree])⟩
    rw [put, if_pos hi]
  | none =>
    split_ifs with hslot
    · refine Or.inl ⟨_, put fs.semfsSems _ (some sem), ?_, slot_of_le le_rfl, slot_put le_rfl,
        lt_length_put le_rfl, hput _, hfull, Or.inr hslot⟩
      rw [put, if_neg (lt_irrefl _)]
    · exact Or.inr ⟨_, rfl, fun h => h.2.elim (fun hne => hne hfree) hslot⟩

theorem failUninsert_eq (hn : n < fs.semfsSems.length) : fs.failUninsert sem n =
    .ok { fs with
      semfsSems := fs.semfsSems.set n none, destroyed := sem.serial :: fs.destroyed } := by
  rw [failUninsert, arraySet_eq hn, ok_bind]
  rfl

theorem link_eq (fs : Semfs) (hs : slot fs.semfsSems n = some sem) : fs.link n =
    .ok { fs with semfsSems := fs.semfsSems.set n (some { sem with semsLinked := true }) } := by
  have hn := lt_of_slot hs
  rw [link, arrayGet_eq hn, ok_bind, hs, deref, ok_bind, arraySet_eq hn, ok_bind]

/-! ## Loops -/

/-- The loop of `semfs_creat` finds the entry with the name, or a free slot or the end. -/
theorem creatLoop_spec (name : CString) (num : ℕ) :
    ∀ (dents : List (Option SemfsDirentry)) (i empty : ℕ),
    match creatLoop name num dents i empty with
    | .inl dent => ∃ j, slot dents j = some dent ∧ dent.semdName = name
    | .inr e => (∀ j dent, slot dents j = some dent → dent.semdName ≠ name) ∧
        (e = empty ∨ ∃ j < dents.length, e = i + j ∧ slot dents j = none)
  | [], i, empty => ⟨fun j dent h => absurd h (by simp), Or.inl rfl⟩
  | none :: dents, i, empty => by
    rw [creatLoop]
    have ih := creatLoop_spec name num dents (i + 1) (if empty = num then i else empty)
    cases hloop : creatLoop name num dents (i + 1) (if empty = num then i else empty) with
    | inl dent =>
      rw [hloop] at ih
      obtain ⟨j, hj, hname⟩ := ih
      exact ⟨j + 1, by simpa using hj, hname⟩
    | inr e =>
      rw [hloop] at ih
      obtain ⟨hnone, he⟩ := ih
      refine ⟨fun j dent hj => ?_, ?_⟩
      · cases j with
        | zero => simp at hj
        | succ j => exact hnone j dent (by simpa using hj)
      · rcases he with he | ⟨j, hj, he, hslot⟩
        · split_ifs at he
          · exact Or.inr ⟨0, Nat.succ_pos _, he, slot_cons_zero⟩
          · exact Or.inl he
        · exact Or.inr ⟨j + 1, Nat.succ_lt_succ hj, by omega, by simpa using hslot⟩
  | some dent :: dents, i, empty => by
    rw [creatLoop]
    split_ifs with hname
    · exact ⟨0, slot_cons_zero, hname⟩
    · have ih := creatLoop_spec name num dents (i + 1) empty
      cases hloop : creatLoop name num dents (i + 1) empty with
      | inl dent' =>
        rw [hloop] at ih
        obtain ⟨j, hj, hname'⟩ := ih
        exact ⟨j + 1, by simpa using hj, hname'⟩
      | inr e =>
        rw [hloop] at ih
        obtain ⟨hnone, he⟩ := ih
        refine ⟨fun j dent' hj => ?_, he.imp_right ?_⟩
        · cases j with
          | zero =>
            rw [slot_cons_zero, Option.some.injEq] at hj
            rwa [← hj]
          | succ j => exact hnone j dent' (by simpa using hj)
        · rintro ⟨j, hj, he, hslot⟩
          exact ⟨j + 1, Nat.succ_lt_succ hj, by omega, by simpa using hslot⟩

/-- The loop of the other functions finds the entry with the name. -/
theorem nameLoop_some {k : ℕ} : ∀ (dents : List (Option SemfsDirentry)) (i : ℕ),
    nameLoop name dents i = some (k, dent) →
      ∃ j, k = i + j ∧ slot dents j = some dent ∧ dent.semdName = name
  | none :: dents, i, h => by
    obtain ⟨j, hk, hj, hname⟩ := nameLoop_some dents (i + 1) h
    exact ⟨j + 1, by omega, by simpa using hj, hname⟩
  | some dent' :: dents, i, h => by
    rw [nameLoop] at h
    split_ifs at h with hname
    · cases h
      exact ⟨0, rfl, slot_cons_zero, hname.symm⟩
    · obtain ⟨j, hk, hj, hname⟩ := nameLoop_some dents (i + 1) h
      exact ⟨j + 1, by omega, by simpa using hj, hname⟩

theorem enterDent_cases (fs : Semfs) (dent : SemfsDirentry) (a : SemfsAllocs)
    (he : e ≤ fs.semfsDents.length) :
    (∃ dents, fs.enterDent e fs.semfsDents.length dent a =
      .ok (e, { fs with semfsDents := dents }) ∧
      slot dents = update (slot fs.semfsDents) e (some dent) ∧ e < dents.length) ∨
    fs.enterDent e fs.semfsDents.length dent a = .error .ENOMEM := by
  unfold enterDent
  split_ifs with hlt hslot
  · refine Or.inl ⟨put fs.semfsDents e (some dent), ?_, slot_put he, lt_length_put he⟩
    rw [put, if_pos hlt]
  · obtain rfl : e = fs.semfsDents.length := le_antisymm he (not_lt.mp hlt)
    refine Or.inl ⟨put fs.semfsDents _ (some dent), ?_, slot_put he, lt_length_put he⟩
    rw [put, if_neg hlt]
  · exact Or.inr rfl

/-- The state is in step if what its slots hold is. -/
theorem InStep.of_slots {S : ℕ → Option NamedSem} {D : ℕ → Option SemfsDirentry}
    (hS : slot fs.semfsSems = S) (hD : slot fs.semfsDents = D) (hdir : DirOk D (LinkedAt S))
    (hvnodes : VnodesOk fs.semfsVnodes fs.vnodesMade (OpenAt S))
    (hsems : SemsOk S fs.semsMade fs.destroyed) (hsize : fs.semfsSems.length ≤ semfsRootdir) :
    fs.InStep := by
  subst hS hD
  exact ⟨hdir, hvnodes, hsems, hsize⟩

/-! ## Vnodes -/

theorem vopIncref_eq (fs : Semfs) (vn : ℕ) : fs.vopIncref vn =
    { fs with semfsVnodes := fs.semfsVnodes.map fun v => { v with
        vnRefcount := if v.serial = vn then v.vnRefcount + 1 else v.vnRefcount } } := by
  unfold vopIncref
  congr 1
  refine List.map_congr_left fun v _ => ?_
  split_ifs <;> rfl

theorem InStep.incref (h : fs.InStep) (vn : ℕ) : (fs.vopIncref vn).InStep := by
  rw [vopIncref_eq]
  refine ⟨h.dir, h.vnodes.recount fun v hv => ?_, h.sems, h.size⟩
  have := h.vnodes.refs v hv
  split_ifs <;> omega

theorem mem_vopIncref {v : SemfsVnode} (hv : v ∈ fs.semfsVnodes) (vn : ℕ) :
    ∃ u ∈ (fs.vopIncref vn).semfsVnodes, u.serial = v.serial ∧ u.semvSemnum = v.semvSemnum := by
  rw [vopIncref_eq]
  exact ⟨_, List.mem_map_of_mem hv, rfl, rfl⟩

/-- `semfs_getvnode` for a semaphore without a vnode. -/
theorem getvnode_new (fs : Semfs) (hnew : ∀ v ∈ fs.semfsVnodes, v.semvSemnum ≠ n)
    (hroot : n ≠ semfsRootdir) (hs : slot fs.semfsSems n = some sem)
    (hno : sem.semsHasvnode = false) :
    fs.getvnode n a = if a.vnode = true ∧ a.vnodeSlot = true then
      .ok (.ok fs.vnodesMade, { fs with
        semfsVnodes := fs.semfsVnodes ++ [⟨fs.vnodesMade, n, 1⟩]
        vnodesMade := fs.vnodesMade + 1
        semfsSems := fs.semfsSems.set n (some { sem with semsHasvnode := true }) })
    else .ok (.error .ENOMEM, fs) := by
  have hfind : fs.semfsVnodes.find? (fun v => v.semvSemnum = n) = none :=
    List.find?_eq_none.mpr fun v hv => by simpa using hnew v hv
  have hn := lt_of_slot hs
  rw [getvnode, hfind]
  by_cases hal : a.vnode = true ∧ a.vnodeSlot = true
  · rw [if_neg (not_not.mpr hal), if_neg hroot, if_pos hal, arrayGet_eq hn, ok_bind, hs]
    dsimp only
    rw [kassert_pos hno, ok_bind, arraySet_eq hn, ok_bind]
  · rw [if_pos hal, if_neg hal]

/-- What a call that gets the vnode of slot `n` did. -/
def GotVnode (fs : Semfs) (n : ℕ) (fs' : Semfs) : Except Errno ℕ → Prop
  | .ok vn => ∃ v ∈ fs'.semfsVnodes, v.serial = vn ∧ v.semvSemnum = n
  | .error _ => fs' = fs

theorem getvnode_spec (h : fs.InStep) (a : SemfsAllocs)
    (hn : n = semfsRootdir ∨ ∃ sem, slot fs.semfsSems n = some sem) :
    ∃ r fs', fs.getvnode n a = .ok (r, fs') ∧ fs'.InStep ∧ fs'.semfsDents = fs.semfsDents ∧
      GotVnode fs n fs' r := by
  cases hfind : fs.semfsVnodes.find? fun v => v.semvSemnum = n with
  | some v =>
    have hv := List.mem_of_find?_eq_some hfind
    have hvn : v.semvSemnum = n := by simpa using List.find?_some hfind
    refine ⟨_, _, by rw [getvnode, hfind], h.incref _, rfl, ?_⟩
    obtain ⟨u, hu, hser, hsem⟩ := mem_vopIncref hv v.serial
    exact ⟨u, hu, hser, hsem.trans hvn⟩
  | none =>
    have hnew : ∀ v ∈ fs.semfsVnodes, v.semvSemnum ≠ n := fun v hv => by
      simpa using List.find?_eq_none.mp hfind v hv
    have hself : (⟨fs.vnodesMade, n, 1⟩ : SemfsVnode) ∈
        fs.semfsVnodes ++ [⟨fs.vnodesMade, n, 1⟩] :=
      List.mem_append.mpr (Or.inr (List.mem_singleton.mpr rfl))
    by_cases hroot : n = semfsRootdir
    · rw [getvnode, hfind]
      split_ifs with hal
      · refine ⟨_, _, rfl, ⟨h.dir, (h.vnodes.add hnew).congr fun m => ?_, h.sems, h.size⟩, rfl,
          _, hself, rfl, rfl⟩
        exact (or_iff_right fun hm => hm.2 hroot).symm
      · exact ⟨_, _, rfl, h, rfl, rfl⟩
    · obtain ⟨sem, hs⟩ := hn.resolve_left hroot
      have hno : sem.semsHasvnode = false := by
        by_contra hhas
        obtain ⟨v, hv, hvn⟩ := h.vnodes.present n ⟨sem, hs, by simpa using hhas⟩
        exact hnew v hv hvn
      rw [getvnode_new fs hnew hroot hs hno]
      split_ifs with hal
      · refine ⟨_, _, rfl, .of_slots (slot_set (lt_of_slot hs)) rfl
          (h.dir.congr fun m => marked_same hs (by simp)) ((h.vnodes.add hnew).congr fun m => ?_)
          (h.sems.modify hs rfl (Or.inr rfl)) ((List.length_set ..).trans_le h.size), rfl, _, hself,
          rfl, rfl⟩
        rw [and_iff_left hroot]
        exact marked_set rfl
      · exact ⟨_, _, rfl, h, rfl, rfl⟩

/-! ## Unlinking and closing -/

theorem remove_spec (h : fs.InStep) (name : CString) :
    ∃ r fs', fs.remove name = .ok (r, fs') ∧ fs'.InStep := by
  unfold remove
  split_ifs with hdots
  · exact ⟨_, _, rfl, h⟩
  cases hloop : nameLoop name fs.semfsDents 0 with
  | none => exact ⟨_, _, rfl, h⟩
  | some r =>
    obtain ⟨i, dent⟩ := r
    obtain ⟨j, hij, hj, -⟩ := nameLoop_some _ _ hloop
    obtain rfl : i = j := by omega
    obtain ⟨sem, hs, hlinked⟩ := h.dir.linked i dent hj
    have hi := lt_of_slot hj
    have hn := lt_of_slot hs
    dsimp only
    rw [arrayGet_eq hn, ok_bind, hs, deref, ok_bind, kassert_pos hlinked, ok_bind]
    have hdir : ∀ x : Option NamedSem, (¬∃ s, x = some s ∧ s.semsLinked = true) →
        DirOk (update (slot fs.semfsDents) i none)
          (LinkedAt (update (slot fs.semfsSems) dent.semdSemnum x)) := fun x hx =>
      (h.dir.remove hj).congr fun m => marked_unset hx
    split_ifs with hvn
    · rw [arraySet_eq hn, ok_bind, ok_bind]
      change ∃ r fs', arraySet fs.semfsDents i none >>= _ = _ ∧ _
      rw [arraySet_eq hi, ok_bind]
      exact ⟨_, _, rfl, .of_slots (slot_set hn) (slot_set hi) (hdir none (by simp))
        (h.vnodes.congr fun m => marked_same hs (by simp [hvn])) (h.sems.destroy hs)
        ((List.length_set ..).trans_le h.size)⟩
    · rw [arraySet_eq hn, ok_bind, ok_bind, arraySet_eq hi, ok_bind]
      exact ⟨_, _, rfl, .of_slots (slot_set hn) (slot_set hi) (hdir _ (by simp))
        (h.vnodes.congr fun m => marked_same hs (by simp))
        (h.sems.modify hs rfl (Or.inr (by simpa using hvn))) ((List.length_set ..).trans_le h.size)⟩

theorem reclaim_spec (h : fs.InStep) {vn : ℕ} (hv : ∃ v ∈ fs.semfsVnodes, v.serial = vn) :
    ∃ r fs', fs.reclaim vn = .ok (r, fs') ∧ fs'.InStep := by
  obtain ⟨v, hfind⟩ : ∃ v, fs.semfsVnodes.find? (fun v => v.serial = vn) = some v := by
    refine Option.isSome_iff_exists.mp (List.find?_isSome.mpr ?_)
    obtain ⟨v, hmem, he⟩ := hv
    exact ⟨v, hmem, by simpa using he⟩
  have hmem := List.mem_of_find?_eq_some hfind
  obtain rfl : v.serial = vn := by simpa using List.find?_some hfind
  have herase := h.vnodes.remove hmem
  unfold reclaim
  rw [hfind, deref, ok_bind]
  split_ifs with href hroot
  · refine ⟨_, _, rfl, h.dir, ?_, h.sems, h.size⟩
    have hrecount : VnodesOk (fs.semfsVnodes.map fun u => { u with
        vnRefcount := if u.serial = v.serial then u.vnRefcount - 1 else u.vnRefcount })
        fs.vnodesMade (OpenAt (slot fs.semfsSems)) := by
      refine h.vnodes.recount fun u hu => ?_
      split_ifs with he
      · rw [List.inj_on_of_nodup_map h.vnodes.serials hu hmem he]
        omega
      · exact h.vnodes.refs u hu
    convert hrecount using 1
    refine List.map_congr_left fun u _ => ?_
    split_ifs <;> rfl
  · refine ⟨_, _, rfl, h.dir, herase.congr fun m => ?_, h.sems, h.size⟩
    refine (and_iff_left_of_imp fun hopen => ?_).symm
    obtain ⟨sem, hs, -⟩ := hopen
    exact ((lt_of_slot hs).trans_le h.size).ne.trans_eq hroot.symm
  · obtain ⟨sem, hs, hhas⟩ := h.vnodes.marked v hmem hroot
    have hn := lt_of_slot hs
    dsimp only
    rw [arrayGet_eq hn, ok_bind, hs, deref, ok_bind, kassert_pos hhas, ok_bind]
    split_ifs with hlinked
    · rw [arraySet_eq hn, ok_bind]
      exact ⟨_, _, rfl, .of_slots (slot_set hn) rfl
        (h.dir.congr fun m => marked_same hs (by simp [hlinked]))
        (herase.congr fun m => marked_unset (by simp)) (h.sems.destroy hs)
        ((List.length_set ..).trans_le h.size)⟩
    · rw [arraySet_eq hn, ok_bind]
      exact ⟨_, _, rfl, .of_slots (slot_set hn) rfl
        (h.dir.congr fun m => marked_same hs (by simp))
        (herase.congr fun m => marked_unset (by simp))
        (h.sems.modify hs rfl (Or.inl (by simpa using hlinked)))
        ((List.length_set ..).trans_le h.size)⟩

/-! ## Creating -/

/-- The directory and the table are as before, up to free slots at their ends. -/
def Unchanged (fs fs' : Semfs) : Prop :=
  slot fs'.semfsDents = slot fs.semfsDents ∧ slot fs'.semfsSems = slot fs.semfsSems

/-- There is a vnode for the name, and it is what was stored in `*resultvn`. -/
def Stored (fs : Semfs) (name : CString) (resultvn : Option ℕ) : Prop :=
  ∃ v ∈ fs.semfsVnodes, resultvn = some v.serial ∧ 0 < v.vnRefcount ∧
    ∃ i dent, slot fs.semfsDents i = some dent ∧ dent.semdName = name ∧
      dent.semdSemnum = v.semvSemnum

/-- What `semfs_creat` should have done. -/
def Honest (fs : Semfs) (name : CString) (r : Reply) (fs' : Semfs) : Prop :=
  if r.result = none then fs'.Stored name r.resultvn else fs.Unchanged fs'

/-- `semfs_creat` gets as far as `semfs_direntry_create` : the name is new, there is memory for the
semaphore, and the table has room for it. -/
def NeedsDent (fs : Semfs) (name : CString) (a : SemfsAllocs) : Prop :=
  ¬name.IsDots ∧ (∀ i dent, slot fs.semfsDents i = some dent → dent.semdName ≠ name) ∧
    (a.sem = true ∧ a.lock = true ∧ a.cv = true) ∧
    (fs.semfsSems.length ≠ semfsRootdir ∧ (firstFree fs.semfsSems ≠ none ∨ a.semSlot = true))

/-- A semaphore was made, and destroyed again. -/
structure Undone (fs fs' : Semfs) : Prop where
  unchanged : fs.Unchanged fs'
  vnodes : fs'.semfsVnodes = fs.semfsVnodes ∧ fs'.vnodesMade = fs.vnodesMade
  sems : fs'.semsMade = fs.semsMade + 1 ∧ fs'.destroyed = fs.semsMade :: fs.destroyed
  size : fs'.semfsSems.length ≤ semfsRootdir

theorem honest_of_error (r : Errno) (hu : fs.Unchanged fs') :
    fs.Honest name ⟨some r, none⟩ fs' := by
  exact hu

theorem InStep.undone (h : fs.InStep) (hu : fs.Undone fs') : fs'.InStep := by
  obtain ⟨⟨hd, hs⟩, ⟨hv, hvm⟩, ⟨hm, hdes⟩, hsize⟩ := hu
  refine .of_slots hs hd h.dir ?_ ?_ hsize
  · rw [hv, hvm]
    exact h.vnodes
  · rw [hm, hdes]
    exact h.sems.undo

/-- A call that fails with an error code and undoes what it did is honest. -/
theorem InStep.failed (h : fs.InStep) (hu : fs.Undone fs') {r : Errno} {P : Prop} (hP : P) :
    fs'.InStep ∧ (fs.Honest name ⟨some r, none⟩ fs' ↔ P) :=
  ⟨h.undone hu, iff_of_true (honest_of_error r hu.unchanged) hP⟩

/-- A new semaphore is in step once it has its entry and its vnode. -/
theorem InStep.created {vs : List SemfsVnode} (h : fs.InStep) (he : slot fs.semfsDents e = none)
    (hn : slot fs.semfsSems n = none) (hroot : n ≠ semfsRootdir)
    (hname : ∀ i dent, slot fs.semfsDents i = some dent → dent.semdName ≠ name)
    (hvs : vs = fs.semfsVnodes ++ [⟨fs.vnodesMade, n, 1⟩]) {dents : List (Option SemfsDirentry)}
    {sems : List (Option NamedSem)}
    (hdents : slot dents = update (slot fs.semfsDents) e (some ⟨name, n⟩))
    (hsems : slot sems = update (slot fs.semfsSems) n (some ⟨fs.semsMade, true, true⟩))
    (hsize : sems.length ≤ semfsRootdir) :
    InStep ⟨vs, sems, dents, fs.semsMade + 1, fs.vnodesMade + 1, fs.destroyed⟩ := by
  have hnot : ∀ P : NamedSem → Prop, ¬∃ s, slot fs.semfsSems n = some s ∧ P s := by
    rintro P ⟨s, hs, -⟩
    rw [hn] at hs
    cases hs
  have hnew : ∀ v ∈ fs.semfsVnodes, v.semvSemnum ≠ n := by
    rintro v hv rfl
    exact hnot _ (h.vnodes.marked v hv hroot)
  subst hvs
  exact .of_slots hsems hdents ((h.dir.add he (hnot _) hname).congr fun m => marked_set rfl)
    ((h.vnodes.add hnew).congr fun m => by rw [and_iff_left hroot]; exact marked_set rfl)
    (h.sems.add hn rfl (Or.inl rfl)) hsize

/-- A new name : what was done is undone if something fails, but the answer is right only if it was
not the entry. -/
theorem creatNew_spec (h : fs.InStep) (a : SemfsAllocs) (hdots : ¬name.IsDots)
    (he : e ≤ fs.semfsDents.length) (hslot : slot fs.semfsDents e = none)
    (hname : ∀ i dent, slot fs.semfsDents i = some dent → dent.semdName ≠ name) :
    ∃ r fs', fs.creatNew name e fs.semfsDents.length a = .ok (r, fs') ∧ fs'.InStep ∧
      (fs.Honest name r fs' ↔ (fs.NeedsDent name a → a.dent = true ∧ a.name = true)) := by
  unfold creatNew semCreate
  by_cases hsem : a.sem = true ∧ a.lock = true ∧ a.cv = true
  swap
  · rw [if_neg hsem]
    exact ⟨_, _, rfl, h, iff_of_true (honest_of_error _ ⟨rfl, rfl⟩) fun h' => absurd h'.2.2.1 hsem⟩
  rw [if_pos hsem]
  dsimp only
  rcases semInsert_cases { fs with semsMade := fs.semsMade + 1 }
    ⟨fs.semsMade, false, false⟩ a h.size
    with ⟨n, sems, hins, hfree, hsems, hlt, hsize, hroom⟩ | ⟨err, hins, hroom⟩
  swap
  · rw [hins]
    refine ⟨_, _, rfl, h.failed ?_ fun h' => absurd h'.2.2.2 hroom⟩
    exact ⟨⟨rfl, rfl⟩, ⟨rfl, rfl⟩, ⟨rfl, rfl⟩, h.size⟩
  have hroot : n ≠ semfsRootdir := (hlt.trans_le hsize).ne
  -- the table once the slot is free again
  have hback : slot (sems.set n none) = slot fs.semfsSems := by
    rw [slot_set hlt, hsems, slot_update_restore hfree]
  have hlen : (sems.set n none).length ≤ semfsRootdir := (List.length_set ..).trans_le hsize
  rw [hins]
  dsimp only
  unfold direntryCreate
  by_cases hdent : a.dent = true ∧ a.name = true
  swap
  · rw [if_neg hdent]
    rw [failUninsert_eq hlt, ok_bind]
    refine ⟨_, _, rfl, h.undone ⟨⟨rfl, hback⟩, ⟨rfl, rfl⟩, ⟨rfl, rfl⟩, hlen⟩, iff_of_false ?_ ?_⟩
    · rintro ⟨v, -, hv, -⟩
      cases hv
    · exact fun h' => hdent (h' ⟨hdots, hname, hsem, hroom⟩)
  rw [if_pos hdent]
  dsimp only
  rcases enterDent_cases { fs with semsMade := fs.semsMade + 1, semfsSems := sems } ⟨name, n⟩ a he
    with ⟨dents, hent, hdents, helt⟩ | hent
  swap
  · rw [hent]
    dsimp only
    rw [failUninsert_eq hlt, ok_bind]
    refine ⟨_, _, rfl, h.failed ?_ fun _ => hdent⟩
    exact ⟨⟨rfl, hback⟩, ⟨rfl, rfl⟩, ⟨rfl, rfl⟩, hlen⟩
  rw [hent]
  dsimp only
  have hs : slot sems n = some ⟨fs.semsMade, false, false⟩ := by
    rw [hsems, update_self]
  have hnew : ∀ v ∈ fs.semfsVnodes, v.semvSemnum ≠ n := by
    rintro v hv rfl
    obtain ⟨sem, hsem, -⟩ := h.vnodes.marked v hv hroot
    cases hfree.symm.trans hsem
  rw [getvnode_new { fs with
    semsMade := fs.semsMade + 1, semfsSems := sems, semfsDents := dents } hnew hroot hs rfl]
  by_cases hvn : a.vnode = true ∧ a.vnodeSlot = true
  · rw [if_pos hvn, ok_bind]
    dsimp only
    have hs' : slot (sems.set n (some ⟨fs.semsMade, true, false⟩)) n =
        some ⟨fs.semsMade, true, false⟩ := by
      rw [slot_set hlt, update_self]
    rw [link_eq _ hs', ok_bind]
    have hsems' : slot ((sems.set n (some ⟨fs.semsMade, true, false⟩)).set n
        (some ⟨fs.semsMade, true, true⟩)) =
        update (slot fs.semfsSems) n (some ⟨fs.semsMade, true, true⟩) := by
      rw [slot_set (by rwa [List.length_set]), slot_set hlt, hsems, update_idem, update_idem]
    refine ⟨_, _, rfl, h.created hslot hfree hroot hname rfl hdents hsems' ?_,
      iff_of_true ?_ fun _ => hdent⟩
    · rw [List.length_set, List.length_set]
      exact hsize
    refine ⟨⟨fs.vnodesMade, n, 1⟩, List.mem_append.mpr (Or.inr (List.mem_singleton.mpr rfl)), rfl,
      Nat.one_pos, e, ⟨name, n⟩, ?_, rfl, rfl⟩
    rw [hdents, update_self]
  · rw [if_neg hvn, ok_bind]
    dsimp only
    rw [arraySet_eq helt, ok_bind, failUninsert_eq hlt, ok_bind]
    refine ⟨_, _, rfl, h.failed ?_ fun _ => hdent⟩
    refine ⟨⟨?_, hback⟩, ⟨rfl, rfl⟩, ⟨rfl, rfl⟩, hlen⟩
    rw [slot_set helt, hdents, slot_update_restore hslot]

theorem creat_spec (h : fs.InStep) (name : CString) (excl : Bool) (a : SemfsAllocs) :
    ∃ r fs', fs.creat name excl a = .ok (r, fs') ∧ fs'.InStep ∧
      (fs.Honest name r fs' ↔ (fs.NeedsDent name a → a.dent = true ∧ a.name = true)) := by
  unfold creat
  by_cases hdots : name.IsDots
  · rw [if_pos hdots]
    exact ⟨_, _, rfl, h, iff_of_true (honest_of_error _ ⟨rfl, rfl⟩) fun hn => absurd hdots hn.1⟩
  rw [if_neg hdots]
  dsimp only
  have hloop := creatLoop_spec name fs.semfsDents.length fs.semfsDents 0 fs.semfsDents.length
  cases hc : creatLoop name fs.semfsDents.length fs.semfsDents 0 fs.semfsDents.length with
  | inl dent =>
    rw [hc] at hloop
    obtain ⟨j, hj, hname⟩ := hloop
    have hno : fs.NeedsDent name a → a.dent = true ∧ a.name = true := fun hn =>
      absurd hname (hn.2.1 j dent hj)
    dsimp only
    split_ifs with hexcl
    · exact ⟨_, _, rfl, h, iff_of_true (honest_of_error _ ⟨rfl, rfl⟩) hno⟩
    · obtain ⟨sem, hs, -⟩ := h.dir.linked j dent hj
      obtain ⟨r, fs', hget, hin, hd, hgot⟩ := getvnode_spec h a (Or.inr ⟨sem, hs⟩)
      rw [hget, ok_bind]
      refine ⟨_, _, rfl, hin, iff_of_true ?_ hno⟩
      cases r with
      | error err =>
        obtain rfl : fs' = fs := hgot
        exact honest_of_error _ ⟨rfl, rfl⟩
      | ok vn =>
        obtain ⟨v, hv, rfl, hsem⟩ := hgot
        exact ⟨v, hv, rfl, hin.vnodes.refs v hv, j, dent, hd ▸ hj, hname, hsem.symm⟩
  | inr e =>
    rw [hc] at hloop
    obtain ⟨hname, he⟩ := hloop
    have hfree : e ≤ fs.semfsDents.length ∧ slot fs.semfsDents e = none := by
      rcases he with rfl | ⟨j, hj, rfl, hslot⟩
      · exact ⟨le_rfl, slot_of_le le_rfl⟩
      · rw [Nat.zero_add]
        exact ⟨hj.le, hslot⟩
    exact creatNew_spec h a hdots hfree.1 hfree.2 hname

/-! ## Sequences of calls -/

theorem create_inStep : create.InStep := by
  refine ⟨⟨?_, ?_, ?_, ?_⟩, ⟨?_, ?_, ?_, ?_, ?_, ?_⟩, ⟨?_, ?_, ?_, ?_, ?_⟩, ?_⟩
  all_goals simp [create, LinkedAt, OpenAt]

/-- Every call returns, and leaves a state in step. -/
theorem exec_spec (h : fs.InStep) {c : Call} (hal : fs.Allowed c) :
    ∃ fs', fs.exec c = .ok fs' ∧ fs'.InStep := by
  cases c with
  | creat name excl a =>
    obtain ⟨r, fs', he, hin, -⟩ := creat_spec h name excl a
    exact ⟨fs', by rw [exec, he]; rfl, hin⟩
  | remove name =>
    obtain ⟨r, fs', he, hin⟩ := remove_spec h name
    exact ⟨fs', by rw [exec, he]; rfl, hin⟩
  | reclaim vn =>
    obtain ⟨r, fs', he, hin⟩ := reclaim_spec h hal
    exact ⟨fs', by rw [exec, he]; rfl, hin⟩
  | getroot a =>
    obtain ⟨r, fs', he, hin, -⟩ := getvnode_spec h a (Or.inl rfl)
    exact ⟨fs', by rw [exec, getroot, he]; rfl, hin⟩
  | lookup dirvn path a =>
    rw [exec, lookup]
    split_ifs with hdots
    · exact ⟨_, rfl, h.incref dirvn⟩
    cases hloop : nameLoop path fs.semfsDents 0 with
    | none => exact ⟨fs, rfl, h⟩
    | some r =>
      obtain ⟨i, dent⟩ := r
      obtain ⟨j, -, hj, -⟩ := nameLoop_some _ _ hloop
      obtain ⟨sem, hs, -⟩ := h.dir.linked j dent hj
      obtain ⟨r, fs', he, hin, -⟩ := getvnode_spec h a (Or.inr ⟨sem, hs⟩)
      exact ⟨fs', by dsimp only; rw [he]; rfl, hin⟩

theorem step_inStep {c : Call} (h : fs.InStep) (hstep : fs.Step c fs') : fs'.InStep := by
  obtain ⟨hal, he⟩ := hstep
  obtain ⟨fs'', he', hin⟩ := exec_spec h hal
  obtain rfl := Except.ok.inj (he'.symm.trans he)
  exact hin

theorem run_inStep {tr : List Call} (hrun : Run Step create tr fs) : fs.InStep :=
  hrun.invariant create_inStep fun _ _ _ h hstep => step_inStep h hstep

theorem step_of_next {c c' : Call} (h : fs.next c = some (c', fs')) : fs.Step c' fs' := by
  obtain ⟨hal, _, he, hc⟩ := ok_of_guard_map h
  cases hc
  exact ⟨hal, he⟩

end Semfs

/-- In every state that calls lead to, names, semaphores and vnodes are in step, and all calls
return. `semfs_creat` does what it should exactly if `semfs_direntry_create` does not fail in it. -/
theorem semfs_in_step_iff {tr : List Semfs.Call} {fs : Semfs}
    (hrun : Run Semfs.Step .create tr fs) : fs.InStep ∧
      (∀ c, fs.Allowed c → ∃ fs', fs.exec c = .ok fs') ∧
      ∀ name excl a, (∃ r fs', fs.creat name excl a = .ok (r, fs') ∧ fs.Honest name r fs') ↔
        (fs.NeedsDent name a → a.dent = true ∧ a.name = true) := by
  have h := Semfs.run_inStep hrun
  refine ⟨h, fun c hal => ?_, fun name excl a => ?_⟩
  · obtain ⟨fs', he, -⟩ := Semfs.exec_spec h hal
    exact ⟨fs', he⟩
  · obtain ⟨r, fs', he, -, hiff⟩ := Semfs.creat_spec h name excl a
    rw [← hiff]
    refine ⟨?_, fun hh => ⟨r, fs', he, hh⟩⟩
    rintro ⟨r', fs'', he', hh⟩
    cases he.symm.trans he'
    exact hh

/-- A name of one letter. -/
def letter (c : UInt8) (hc : c ≠ 0) : CString :=
  ⟨[c], by simpa using hc.symm⟩

/-- A semaphore is created and removed while it is open; the last close destroys it. -/
theorem semfs_in_step_iff_small : ∃ tr fs, Run Semfs.Step .create tr fs ∧ fs.destroyed = [0] ∧
    fs.InStep := by
  obtain ⟨tr, fs, hrun, hd⟩ := Run.exists_of_execute Semfs.next Semfs.step_of_next .create
    [.creat (letter 97 (by decide)) true ⟨true, true, true, true, true, true, true, true, true⟩,
      .remove (letter 97 (by decide)), .reclaim 0] (fun _ fs => fs.destroyed = [0])
    (by decide +kernel)
  exact ⟨tr, fs, hrun, hd, (semfs_in_step_iff hrun).1⟩

/-- There is no memory for the directory entry. `semfs_creat` returns `0` and there is no vnode. -/
theorem semfs_creat_forgets : ∃ fs, Semfs.create.creat (letter 97 (by decide)) true
      ⟨true, true, true, true, false, true, true, true, true⟩ = .ok (⟨none, none⟩, fs) ∧
    fs.semfsVnodes = [] := by
  exact ⟨_, rfl, rfl⟩

end OS161
