import OS161.SfsOps
import OS161.SlotTable
import OS161.Transition

/-!
# The directory of `semfs`

A semaphore of `semfs` has a slot in the table `semfs_sems` (`NamedSem`), a name in the directory
`semfs_dents` while it is linked, and a vnode in `semfs_vnodes` while it is open. It is destroyed
when it has neither. `semfs_creat`, `semfs_lookup`, `semfs_remove` and `semfs_reclaim` are given
which of their allocations succeed (`SemfsAllocs`), and run one after the other.

`Semfs.InStep` says that the three are in step. It is about the directory and the table as functions
from slot numbers (`slot`), and has a part for the entries and the marks of the semaphores
(`DirOk`), one for the vnodes (`VnodesOk`) and one for the semaphores that were made and destroyed
(`SemsOk`). There is a lemma for each way in which one of them changes.
-/

namespace OS161

open SlotTable Function

/-! ## The file system -/

/-- `SEMFS_ROOTDIR`. -/
def semfsRootdir : ℕ :=
  0xffffffff

/-- `struct semfs_direntry`. -/
structure SemfsDirentry where
  semdName : CString
  semdSemnum : ℕ
  deriving DecidableEq

/-- `struct semfs_sem` without the count and what goes with it. The semaphores are numbered as they
are made. -/
structure NamedSem where
  serial : ℕ
  semsHasvnode : Bool
  semsLinked : Bool
  deriving DecidableEq

/-- `struct semfs_vnode`. The vnodes are numbered as they are made. -/
structure SemfsVnode where
  serial : ℕ
  semvSemnum : ℕ
  vnRefcount : ℕ
  deriving DecidableEq

/-- `struct semfs`, with the number of semaphores and vnodes that were made, and the semaphores
that were destroyed. -/
structure Semfs where
  semfsVnodes : List SemfsVnode
  semfsSems : List (Option NamedSem)
  semfsDents : List (Option SemfsDirentry)
  semsMade : ℕ
  vnodesMade : ℕ
  destroyed : List ℕ

/-- The allocations that succeed. -/
structure SemfsAllocs where
  sem : Bool
  lock : Bool
  cv : Bool
  semSlot : Bool
  dent : Bool
  name : Bool
  dentSlot : Bool
  vnode : Bool
  vnodeSlot : Bool
  deriving DecidableEq, Repr

/-- The names that are not entries. -/
def CString.IsDots (name : CString) : Prop :=
  name.bytes = [0x2e] ∨ name.bytes = [0x2e, 0x2e]

instance (name : CString) : Decidable name.IsDots :=
  inferInstanceAs (Decidable (_ ∨ _))

/-- `array_get`. -/
def arrayGet {α : Type} (l : List (Option α)) (i : ℕ) : Except Halt (Option α) := do
  kassert (i < l.length) "index < a->num"
  .ok (slot l i)

/-- `array_set`. -/
def arraySet {α : Type} (l : List (Option α)) (i : ℕ) (x : Option α) :
    Except Halt (List (Option α)) := do
  kassert (i < l.length) "index < a->num"
  .ok (l.set i x)

namespace Semfs

/-- `semfs_create`. -/
def create : Semfs :=
  ⟨[], [], [], 0, 0, []⟩

/-! ### `semfs_obj.c` -/

/-- `semfs_sem_create`. -/
def semCreate (fs : Semfs) (a : SemfsAllocs) : Option (NamedSem × Semfs) :=
  if a.sem ∧ a.lock ∧ a.cv then
    some (⟨fs.semsMade, false, false⟩, { fs with semsMade := fs.semsMade + 1 })
  else none

/-- `semfs_sem_destroy`. -/
def semDestroy (fs : Semfs) (sem : NamedSem) : Semfs :=
  { fs with destroyed := sem.serial :: fs.destroyed }

/-- `semfs_sem_insert`. -/
def semInsert (fs : Semfs) (sem : NamedSem) (a : SemfsAllocs) : Except Errno (ℕ × Semfs) :=
  let num := fs.semfsSems.length
  if num = semfsRootdir then .error .ENOSPC
  else match firstFree fs.semfsSems with
    | some i => .ok (i, { fs with semfsSems := fs.semfsSems.set i (some sem) })
    | none =>
      if a.semSlot then .ok (num, { fs with semfsSems := fs.semfsSems ++ [some sem] })
      else .error .ENOMEM

/-- `semfs_direntry_create`. -/
def direntryCreate (name : CString) (semnum : ℕ) (a : SemfsAllocs) : Option SemfsDirentry :=
  if a.dent ∧ a.name then some ⟨name, semnum⟩ else none

/-! ### Vnodes -/

/-- `VOP_INCREF`. -/
def vopIncref (fs : Semfs) (vn : ℕ) : Semfs :=
  { fs with semfsVnodes := fs.semfsVnodes.map fun v =>
      if v.serial = vn then { v with vnRefcount := v.vnRefcount + 1 } else v }

/-- `semfs_getvnode`. -/
def getvnode (fs : Semfs) (semnum : ℕ) (a : SemfsAllocs) :
    Except Halt (Except Errno ℕ × Semfs) :=
  match fs.semfsVnodes.find? fun v => v.semvSemnum = semnum with
  | some v => .ok (.ok v.serial, fs.vopIncref v.serial)
  | none =>
    if ¬(a.vnode ∧ a.vnodeSlot) then .ok (.error .ENOMEM, fs)
    else
      let vn := fs.vnodesMade
      let fs := { fs with
        semfsVnodes := fs.semfsVnodes ++ [⟨vn, semnum, 1⟩]
        vnodesMade := vn + 1 }
      if semnum = semfsRootdir then .ok (.ok vn, fs)
      else do
        match ← arrayGet fs.semfsSems semnum with
        | none => .error (.kassert "sem != NULL")
        | some sem => do
          kassert (sem.semsHasvnode = false) "sem->sems_hasvnode == false"
          let sems ← arraySet fs.semfsSems semnum (some { sem with semsHasvnode := true })
          .ok (.ok vn, { fs with semfsSems := sems })

/-- `semfs_reclaim`. -/
def reclaim (fs : Semfs) (vn : ℕ) : Except Halt (Option Errno × Semfs) := do
  let v ← deref (fs.semfsVnodes.find? fun v => v.serial = vn)
  if 1 < v.vnRefcount then
    .ok (some .EBUSY, { fs with semfsVnodes := fs.semfsVnodes.map fun v =>
      if v.serial = vn then { v with vnRefcount := v.vnRefcount - 1 } else v })
  else do
    let fs := { fs with semfsVnodes := fs.semfsVnodes.eraseP fun v => v.serial = vn }
    if v.semvSemnum = semfsRootdir then .ok (none, fs)
    else do
      let sem ← deref (← arrayGet fs.semfsSems v.semvSemnum)
      kassert (sem.semsHasvnode = true) "sem->sems_hasvnode"
      if sem.semsLinked = false then do
        let sems ← arraySet fs.semfsSems v.semvSemnum none
        .ok (none, { fs with semfsSems := sems }.semDestroy sem)
      else do
        let sems ← arraySet fs.semfsSems v.semvSemnum (some { sem with semsHasvnode := false })
        .ok (none, { fs with semfsSems := sems })

/-! ### The directory -/

/-- The loop of `semfs_creat` : the entry with the name, or `empty` when there is none. -/
def creatLoop (name : CString) (num : ℕ) :
    List (Option SemfsDirentry) → ℕ → ℕ → SemfsDirentry ⊕ ℕ
  | [], _, empty => .inr empty
  | none :: dents, i, empty => creatLoop name num dents (i + 1) (if empty = num then i else empty)
  | some dent :: dents, i, empty =>
    if dent.semdName = name then .inl dent else creatLoop name num dents (i + 1) empty

/-- The loop of `semfs_remove` and `semfs_lookup`. -/
def nameLoop (name : CString) : List (Option SemfsDirentry) → ℕ → Option (ℕ × SemfsDirentry)
  | [], _ => none
  | none :: dents, i => nameLoop name dents (i + 1)
  | some dent :: dents, i =>
    if name = dent.semdName then some (i, dent) else nameLoop name dents (i + 1)

/-- `semfs_creat` from `fail_uninsert` on, up to the `return`. -/
def failUninsert (fs : Semfs) (sem : NamedSem) (semnum : ℕ) : Except Halt Semfs := do
  let sems ← arraySet fs.semfsSems semnum none
  .ok ({ fs with semfsSems := sems }.semDestroy sem)

/-- The part of `semfs_creat` that puts the entry into the directory : its slot. -/
def enterDent (fs : Semfs) (empty num : ℕ) (dent : SemfsDirentry) (a : SemfsAllocs) :
    Except Errno (ℕ × Semfs) :=
  if empty < num then .ok (empty, { fs with semfsDents := fs.semfsDents.set empty (some dent) })
  else if a.dentSlot then
    .ok (fs.semfsDents.length, { fs with semfsDents := fs.semfsDents ++ [some dent] })
  else .error .ENOMEM

/-- `sem->sems_linked = true` for the semaphore in slot `semnum`. -/
def link (fs : Semfs) (semnum : ℕ) : Except Halt Semfs := do
  let sem ← deref (← arrayGet fs.semfsSems semnum)
  let sems ← arraySet fs.semfsSems semnum (some { sem with semsLinked := true })
  .ok { fs with semfsSems := sems }

/-- What `semfs_creat` and `semfs_lookup` return, and what they stored in `*resultvn`. -/
structure Reply where
  result : Option Errno
  resultvn : Option ℕ
  deriving DecidableEq

/-- A vnode, or an error. -/
def Reply.ofVnode : Except Errno ℕ → Reply
  | .ok vn => ⟨none, some vn⟩
  | .error e => ⟨some e, none⟩

/-- `semfs_creat` for a name that is not there, with `empty` the first free slot. -/
def creatNew (fs : Semfs) (name : CString) (empty num : ℕ) (a : SemfsAllocs) :
    Except Halt (Reply × Semfs) :=
  match fs.semCreate a with
  | none => .ok (⟨some .ENOMEM, none⟩, fs)
  | some (sem, fs) =>
    match fs.semInsert sem a with
    | .error e => .ok (⟨some e, none⟩, fs.semDestroy sem)
    | .ok (semnum, fs) =>
      match direntryCreate name semnum a with
      -- result is still the 0 of semfs_sem_insert
      | none => do
        let fs ← fs.failUninsert sem semnum
        .ok (⟨none, none⟩, fs)
      | some dent =>
        match fs.enterDent empty num dent a with
        | .error e => do
          let fs ← fs.failUninsert sem semnum
          .ok (⟨some e, none⟩, fs)
        | .ok (empty, fs) => do
          let (r, fs) ← fs.getvnode semnum a
          match r with
          | .error e => do
            let dents ← arraySet fs.semfsDents empty none
            let fs ← { fs with semfsDents := dents }.failUninsert sem semnum
            .ok (⟨some e, none⟩, fs)
          | .ok vn => do
            let fs ← fs.link semnum
            .ok (⟨none, some vn⟩, fs)

/-- `semfs_creat`. -/
def creat (fs : Semfs) (name : CString) (excl : Bool) (a : SemfsAllocs) :
    Except Halt (Reply × Semfs) :=
  if name.IsDots then .ok (⟨some .EEXIST, none⟩, fs)
  else
    let num := fs.semfsDents.length
    match creatLoop name num fs.semfsDents 0 num with
    | .inl dent =>
      if excl then .ok (⟨some .EEXIST, none⟩, fs)
      else do
        let (r, fs) ← fs.getvnode dent.semdSemnum a
        .ok (.ofVnode r, fs)
    | .inr empty => fs.creatNew name empty num a

/-- `semfs_remove`. -/
def remove (fs : Semfs) (name : CString) : Except Halt (Option Errno × Semfs) :=
  if name.IsDots then .ok (some .EINVAL, fs)
  else match nameLoop name fs.semfsDents 0 with
    | none => .ok (some .ENOENT, fs)
    | some (i, dent) => do
      let sem ← deref (← arrayGet fs.semfsSems dent.semdSemnum)
      kassert (sem.semsLinked = true) "sem->sems_linked"
      let fs ← if sem.semsHasvnode = false then do
          let sems ← arraySet fs.semfsSems dent.semdSemnum none
          .ok ({ fs with semfsSems := sems }.semDestroy sem)
        else do
          let sems ← arraySet fs.semfsSems dent.semdSemnum (some { sem with semsLinked := false })
          .ok { fs with semfsSems := sems }
      let dents ← arraySet fs.semfsDents i none
      .ok (none, { fs with semfsDents := dents })

/-- `semfs_lookup`, from the directory `dirvn`. -/
def lookup (fs : Semfs) (dirvn : ℕ) (path : CString) (a : SemfsAllocs) :
    Except Halt (Reply × Semfs) :=
  if path.IsDots then .ok (⟨none, some dirvn⟩, fs.vopIncref dirvn)
  else match nameLoop path fs.semfsDents 0 with
    | none => .ok (⟨some .ENOENT, none⟩, fs)
    | some (_, dent) => do
      let (r, fs) ← fs.getvnode dent.semdSemnum a
      .ok (.ofVnode r, fs)

/-- `semfs_getroot`. -/
def getroot (fs : Semfs) (a : SemfsAllocs) : Except Halt (Reply × Semfs) := do
  let (r, fs) ← fs.getvnode semfsRootdir a
  .ok (.ofVnode r, fs)

/-! ## Sequences of calls -/

/-- The calls, with the allocations that succeed. -/
inductive Call
  | creat (name : CString) (excl : Bool) (a : SemfsAllocs)
  | lookup (dirvn : ℕ) (path : CString) (a : SemfsAllocs)
  | remove (name : CString)
  | reclaim (vn : ℕ)
  | getroot (a : SemfsAllocs)

/-- A vnode that is looked up from is a directory, and a vnode that is reclaimed exists. -/
def Allowed (fs : Semfs) : Call → Prop
  | .lookup dirvn _ _ => ∃ v ∈ fs.semfsVnodes, v.serial = dirvn ∧ v.semvSemnum = semfsRootdir
  | .reclaim vn => ∃ v ∈ fs.semfsVnodes, v.serial = vn
  | _ => True

instance (fs : Semfs) (c : Call) : Decidable (fs.Allowed c) :=
  match c with
  | .creat _ _ _ => inferInstanceAs (Decidable True)
  | .lookup _ _ _ => inferInstanceAs (Decidable (∃ v ∈ fs.semfsVnodes, _ ∧ _))
  | .remove _ => inferInstanceAs (Decidable True)
  | .reclaim _ => inferInstanceAs (Decidable (∃ v ∈ fs.semfsVnodes, _))
  | .getroot _ => inferInstanceAs (Decidable True)

/-- One call. -/
def exec (fs : Semfs) : Call → Except Halt Semfs
  | .creat name excl a => (fs.creat name excl a).map Prod.snd
  | .lookup dirvn path a => (fs.lookup dirvn path a).map Prod.snd
  | .remove name => (fs.remove name).map Prod.snd
  | .reclaim vn => (fs.reclaim vn).map Prod.snd
  | .getroot a => (fs.getroot a).map Prod.snd

/-- A call as the VFS layer makes it. -/
def Step (fs : Semfs) (c : Call) (fs' : Semfs) : Prop :=
  fs.Allowed c ∧ fs.exec c = .ok fs'

/-- The step of an allowed call, for concrete runs. -/
def next (fs : Semfs) (c : Call) : Option (Call × Semfs) :=
  if fs.Allowed c then (fs.exec c).toOption.map fun fs' => (c, fs') else none

/-! ## What stays in step -/

/-- The semaphore in slot `n` is linked. -/
def LinkedAt (S : ℕ → Option NamedSem) (n : ℕ) : Prop :=
  ∃ sem, S n = some sem ∧ sem.semsLinked = true

/-- The semaphore in slot `n` is marked as having a vnode. -/
def OpenAt (S : ℕ → Option NamedSem) (n : ℕ) : Prop :=
  ∃ sem, S n = some sem ∧ sem.semsHasvnode = true

/-- The entries have different names, and are one for each linked semaphore. -/
structure DirOk (D : ℕ → Option SemfsDirentry) (L : ℕ → Prop) : Prop where
  names : ∀ i j d d', D i = some d → D j = some d' → d.semdName = d'.semdName → i = j
  semnums : ∀ i j d d', D i = some d → D j = some d' → d.semdSemnum = d'.semdSemnum → i = j
  linked : ∀ i d, D i = some d → L d.semdSemnum
  named : ∀ n, L n → ∃ i d, D i = some d ∧ d.semdSemnum = n

/-- There is one vnode for each semaphore that is marked as having one, and maybe one for the
directory. -/
structure VnodesOk (vs : List SemfsVnode) (made : ℕ) (H : ℕ → Prop) : Prop where
  marked : ∀ v ∈ vs, v.semvSemnum ≠ semfsRootdir → H v.semvSemnum
  present : ∀ n, H n → ∃ v ∈ vs, v.semvSemnum = n
  one : (vs.map SemfsVnode.semvSemnum).Nodup
  serials : (vs.map SemfsVnode.serial).Nodup
  lt : ∀ v ∈ vs, v.serial < made
  refs : ∀ v ∈ vs, 0 < v.vnRefcount

/-- The semaphores in the table are linked or have a vnode, and those that were made and are not in
the table were destroyed, once each. -/
structure SemsOk (S : ℕ → Option NamedSem) (made : ℕ) (destroyed : List ℕ) : Prop where
  held : ∀ n sem, S n = some sem → sem.semsLinked = true ∨ sem.semsHasvnode = true
  serials : ∀ n m sem sem', S n = some sem → S m = some sem' → sem.serial = sem'.serial → n = m
  lt : ∀ n sem, S n = some sem → sem.serial < made
  once : destroyed.Nodup
  gone : ∀ k, k ∈ destroyed ↔ k < made ∧ ∀ n sem, S n = some sem → sem.serial ≠ k

/-- Names, semaphores and vnodes are in step. -/
structure InStep (fs : Semfs) : Prop where
  dir : DirOk (slot fs.semfsDents) (LinkedAt (slot fs.semfsSems))
  vnodes : VnodesOk fs.semfsVnodes fs.vnodesMade (OpenAt (slot fs.semfsSems))
  sems : SemsOk (slot fs.semfsSems) fs.semsMade fs.destroyed
  size : fs.semfsSems.length ≤ semfsRootdir

section Parts

variable {D : ℕ → Option SemfsDirentry} {S : ℕ → Option NamedSem} {L L' H H' : ℕ → Prop}
  {vs : List SemfsVnode} {made i e n m : ℕ} {destroyed : List ℕ} {d : SemfsDirentry}
  {sem sem' : NamedSem} {v : SemfsVnode} {name : CString} {x : Option NamedSem}

/-- The semaphores with a mark, with one slot replaced. -/
theorem marked_update {P : NamedSem → Prop} : (∃ sem, update S n x m = some sem ∧ P sem) ↔
    if m = n then ∃ sem, x = some sem ∧ P sem else ∃ sem, S m = some sem ∧ P sem := by
  split_ifs with h
  · subst h
    rw [update_self]
  · rw [update_of_ne h]

theorem marked_same {P : NamedSem → Prop} (hs : S n = some sem)
    (hx : (∃ s, x = some s ∧ P s) ↔ P sem) :
    (∃ s, update S n x m = some s ∧ P s) ↔ ∃ s, S m = some s ∧ P s := by
  rw [marked_update]
  split_ifs with hm
  · subst hm
    rw [hx]
    simp [hs]
  · rfl

theorem marked_unset {P : NamedSem → Prop} (hx : ¬∃ s, x = some s ∧ P s) :
    (∃ s, update S n x m = some s ∧ P s) ↔ (∃ s, S m = some s ∧ P s) ∧ m ≠ n := by
  rw [marked_update]
  split_ifs with hm
  · exact ⟨fun h => absurd h hx, fun h => absurd hm h.2⟩
  · exact (and_iff_left hm).symm

theorem marked_set {P : NamedSem → Prop} (hP : P sem) :
    (∃ s, update S n (some sem) m = some s ∧ P s) ↔ m = n ∨ ∃ s, S m = some s ∧ P s := by
  rw [marked_update]
  split_ifs with hm
  · exact iff_of_true ⟨sem, rfl, hP⟩ (Or.inl hm)
  · exact (or_iff_right hm).symm

theorem DirOk.congr (h : DirOk D L) (hL : ∀ n, L' n ↔ L n) : DirOk D L' := by
  obtain rfl : L' = L := funext fun n => propext (hL n)
  exact h

theorem VnodesOk.congr (h : VnodesOk vs made H) (hH : ∀ n, H' n ↔ H n) : VnodesOk vs made H' := by
  obtain rfl : H' = H := funext fun n => propext (hH n)
  exact h

/-- A new entry, for a semaphore that was not linked. -/
theorem DirOk.add (h : DirOk D L) (he : D e = none) (hn : ¬L n)
    (hname : ∀ i d, D i = some d → d.semdName ≠ name) :
    DirOk (update D e (some ⟨name, n⟩)) fun m => m = n ∨ L m := by
  have hcases : ∀ i d, update D e (some ⟨name, n⟩) i = some d →
      i = e ∧ d = ⟨name, n⟩ ∨ i ≠ e ∧ D i = some d := fun _ _ => update_some_eq_some.mp
  refine ⟨fun i j d d' hi hj heq => ?_, fun i j d d' hi hj heq => ?_, fun i d hi => ?_,
    fun m hm => ?_⟩
  · rcases hcases i d hi with ⟨hie, hd⟩ | ⟨-, hi₀⟩ <;>
      rcases hcases j d' hj with ⟨hje, hd'⟩ | ⟨-, hj₀⟩
    · exact hie.trans hje.symm
    · exact absurd (heq.symm.trans (congrArg _ hd)) (hname j d' hj₀)
    · exact absurd (heq.trans (congrArg _ hd')) (hname i d hi₀)
    · exact h.names i j d d' hi₀ hj₀ heq
  · rcases hcases i d hi with ⟨hie, hd⟩ | ⟨-, hi₀⟩ <;>
      rcases hcases j d' hj with ⟨hje, hd'⟩ | ⟨-, hj₀⟩
    · exact hie.trans hje.symm
    · have hsem : d'.semdSemnum = n := heq.symm.trans (congrArg _ hd)
      exact absurd (hsem ▸ h.linked j d' hj₀) hn
    · have hsem : d.semdSemnum = n := heq.trans (congrArg _ hd')
      exact absurd (hsem ▸ h.linked i d hi₀) hn
    · exact h.semnums i j d d' hi₀ hj₀ heq
  · rcases hcases i d hi with ⟨rfl, rfl⟩ | ⟨-, hi⟩
    · exact Or.inl rfl
    · exact Or.inr (h.linked i d hi)
  · rcases hm with rfl | hm
    · exact ⟨e, _, update_self .., rfl⟩
    · obtain ⟨i, d, hi, hd⟩ := h.named m hm
      refine ⟨i, d, ?_, hd⟩
      rw [update_of_ne, hi]
      rintro rfl
      rw [he] at hi
      cases hi

/-- The entry in slot `i` is taken out. -/
theorem DirOk.remove (h : DirOk D L) (hi : D i = some d) :
    DirOk (update D i none) fun m => L m ∧ m ≠ d.semdSemnum := by
  have hcases : ∀ j d', update D i none j = some d' → j ≠ i ∧ D j = some d' :=
    fun _ _ => update_none_eq_some.mp
  refine ⟨fun j k d₁ d₂ h1 h2 => ?_, fun j k d₁ d₂ h1 h2 => ?_, fun j d' hj => ?_, fun m hm => ?_⟩
  · exact h.names j k d₁ d₂ (hcases j d₁ h1).2 (hcases k d₂ h2).2
  · exact h.semnums j k d₁ d₂ (hcases j d₁ h1).2 (hcases k d₂ h2).2
  · obtain ⟨hne, hj⟩ := hcases j d' hj
    exact ⟨h.linked j d' hj, fun heq => hne (h.semnums j i d' d hj hi heq)⟩
  · obtain ⟨j, d', hj, hd⟩ := h.named m hm.1
    refine ⟨j, d', ?_, hd⟩
    rw [update_of_ne, hj]
    rintro rfl
    rw [hi] at hj
    cases hj
    exact hm.2 hd.symm

/-- A new vnode, where there was none. -/
theorem VnodesOk.add (h : VnodesOk vs made H) (hn : ∀ v ∈ vs, v.semvSemnum ≠ n) :
    VnodesOk (vs ++ [⟨made, n, 1⟩]) (made + 1) fun m => m = n ∧ n ≠ semfsRootdir ∨ H m := by
  have hcases : ∀ v ∈ vs ++ [(⟨made, n, 1⟩ : SemfsVnode)], v ∈ vs ∨ v = ⟨made, n, 1⟩ := by
    intro v hv
    rcases List.mem_append.mp hv with hv | hv
    · exact Or.inl hv
    · exact Or.inr (List.mem_singleton.mp hv)
  have hself : (⟨made, n, 1⟩ : SemfsVnode) ∈ vs ++ [⟨made, n, 1⟩] :=
    List.mem_append.mpr (Or.inr (List.mem_singleton.mpr rfl))
  refine ⟨fun v hv hroot => ?_, fun m hm => ?_, ?_, ?_, fun v hv => ?_, fun v hv => ?_⟩
  · rcases hcases v hv with hv | rfl
    · exact Or.inr (h.marked v hv hroot)
    · exact Or.inl ⟨rfl, hroot⟩
  · rcases hm with ⟨rfl, -⟩ | hm
    · exact ⟨_, hself, rfl⟩
    · obtain ⟨v, hv, hvm⟩ := h.present m hm
      exact ⟨v, List.mem_append.mpr (Or.inl hv), hvm⟩
  · rw [List.map_append]
    refine h.one.append (List.nodup_singleton _) (List.disjoint_singleton.mpr fun hmem => ?_)
    obtain ⟨v, hv, he⟩ := List.mem_map.mp hmem
    exact hn v hv he
  · rw [List.map_append]
    refine h.serials.append (List.nodup_singleton _) (List.disjoint_singleton.mpr fun hmem => ?_)
    obtain ⟨v, hv, he⟩ := List.mem_map.mp hmem
    exact absurd (h.lt v hv) (by rw [he]; exact lt_irrefl _)
  · rcases hcases v hv with hv | rfl
    · exact (h.lt v hv).trans (Nat.lt_succ_self _)
    · exact Nat.lt_succ_self _
  · rcases hcases v hv with hv | rfl
    · exact h.refs v hv
    · exact Nat.one_pos

/-- The vnode `v` is taken out. -/
theorem VnodesOk.remove (h : VnodesOk vs made H) (hv : v ∈ vs) :
    VnodesOk (vs.eraseP fun u => u.serial = v.serial) made fun m => H m ∧ m ≠ v.semvSemnum := by
  have hsub : (vs.eraseP fun u => decide (u.serial = v.serial)).Sublist vs := List.eraseP_sublist
  have heq : ∀ {u}, u ∈ vs → u.serial = v.serial → u = v := fun hu he =>
    List.inj_on_of_nodup_map h.serials hu hv he
  have hout : ∀ u ∈ vs.eraseP fun u => decide (u.serial = v.serial), u ≠ v := by
    rintro u hu rfl
    have hperm : vs.Perm (u :: vs.eraseP fun w => decide (w.serial = u.serial)) := by
      obtain ⟨w, l₁, l₂, -, hw, hl, hl'⟩ :=
        List.exists_of_eraseP (p := fun w => decide (w.serial = u.serial)) hv (by simp)
      obtain rfl : w = u := heq (by rw [hl]; simp) (of_decide_eq_true hw)
      rw [hl']
      nth_rewrite 1 [hl]
      exact List.perm_middle
    have hnodup := (hperm.map SemfsVnode.serial).nodup_iff.mp h.serials
    rw [List.map_cons, List.nodup_cons] at hnodup
    exact hnodup.1 (List.mem_map_of_mem hu)
  have hkeep : ∀ u ∈ vs, u ≠ v → u ∈ vs.eraseP fun w => decide (w.serial = v.serial) := by
    intro u hu hne
    exact (List.mem_eraseP_of_neg (by simpa using fun he => hne (heq hu he))).mpr hu
  refine ⟨fun u hu hroot => ⟨h.marked u (hsub.subset hu) hroot, fun he => ?_⟩, fun m hm => ?_,
    (hsub.map _).nodup h.one, (hsub.map _).nodup h.serials, fun u hu => h.lt u (hsub.subset hu),
    fun u hu => h.refs u (hsub.subset hu)⟩
  · exact hout u hu (List.inj_on_of_nodup_map h.one (hsub.subset hu) hv he)
  · obtain ⟨u, hu, rfl⟩ := h.present m hm.1
    exact ⟨u, hkeep u hu fun he => hm.2 (by rw [he]), rfl⟩

/-- References come and go. -/
theorem VnodesOk.recount (h : VnodesOk vs made H) {f : SemfsVnode → ℕ} (hf : ∀ v ∈ vs, 0 < f v) :
    VnodesOk (vs.map fun v => { v with vnRefcount := f v }) made H := by
  have hmap : ∀ {β : Type} (g : SemfsVnode → β), (∀ v c, g { v with vnRefcount := c } = g v) →
      (vs.map fun v => { v with vnRefcount := f v }).map g = vs.map g := by
    intro β g hg
    rw [List.map_map]
    exact List.map_congr_left fun v _ => hg v _
  have hmem : ∀ u ∈ vs.map fun v => { v with vnRefcount := f v }, ∃ v ∈ vs,
      u = { v with vnRefcount := f v } := by
    intro u hu
    obtain ⟨v, hv, rfl⟩ := List.mem_map.mp hu
    exact ⟨v, hv, rfl⟩
  refine ⟨fun u hu hroot => ?_, fun m hm => ?_, ?_, ?_, fun u hu => ?_, fun u hu => ?_⟩
  · obtain ⟨v, hv, rfl⟩ := hmem u hu
    exact h.marked v hv hroot
  · obtain ⟨v, hv, rfl⟩ := h.present m hm
    exact ⟨_, List.mem_map_of_mem hv, rfl⟩
  · rw [hmap _ fun _ _ => rfl]
    exact h.one
  · rw [hmap _ fun _ _ => rfl]
    exact h.serials
  · obtain ⟨v, hv, rfl⟩ := hmem u hu
    exact h.lt v hv
  · obtain ⟨v, hv, rfl⟩ := hmem u hu
    exact hf v hv

/-- The marks of a semaphore change, and it stays. -/
theorem SemsOk.modify (h : SemsOk S made destroyed) (hn : S n = some sem)
    (hserial : sem'.serial = sem.serial)
    (hheld : sem'.semsLinked = true ∨ sem'.semsHasvnode = true) :
    SemsOk (update S n (some sem')) made destroyed := by
  have hold : ∀ m s, update S n (some sem') m = some s →
      m = n ∧ s = sem' ∨ m ≠ n ∧ S m = some s := fun _ _ => update_some_eq_some.mp
  -- every semaphore of the new table was in the old one, with the same number
  have hback : ∀ m s, update S n (some sem') m = some s →
      ∃ s₀, S m = some s₀ ∧ s₀.serial = s.serial := by
    intro m s hs
    rcases hold m s hs with ⟨rfl, rfl⟩ | ⟨-, hs⟩
    · exact ⟨sem, hn, hserial.symm⟩
    · exact ⟨s, hs, rfl⟩
  have hforth : ∀ m s, S m = some s →
      ∃ s₁, update S n (some sem') m = some s₁ ∧ s₁.serial = s.serial := by
    intro m s hs
    by_cases hm : m = n
    · subst hm
      rw [hn] at hs
      cases hs
      exact ⟨sem', update_self .., hserial⟩
    · exact ⟨s, by rw [update_of_ne hm, hs], rfl⟩
  refine ⟨fun m s hs => ?_, fun m k s s' hs hs' he => ?_, fun m s hs => ?_, h.once, fun k => ?_⟩
  · rcases hold m s hs with ⟨rfl, rfl⟩ | ⟨-, hs⟩
    · exact hheld
    · exact h.held m s hs
  · obtain ⟨s₀, h0, hs0⟩ := hback m s hs
    obtain ⟨s₁, h1, hs1⟩ := hback k s' hs'
    exact h.serials m k s₀ s₁ h0 h1 (by rw [hs0, hs1, he])
  · obtain ⟨s₀, h0, hs0⟩ := hback m s hs
    rw [← hs0]
    exact h.lt m s₀ h0
  · rw [h.gone]
    refine and_congr_right fun _ => ⟨fun hk m s hs => ?_, fun hk m s hs => ?_⟩
    · obtain ⟨s₀, h0, hs0⟩ := hback m s hs
      rw [← hs0]
      exact hk m s₀ h0
    · obtain ⟨s₁, h1, hs1⟩ := hforth m s hs
      rw [← hs1]
      exact hk m s₁ h1

/-- A semaphore is destroyed. -/
theorem SemsOk.destroy (h : SemsOk S made destroyed) (hn : S n = some sem) :
    SemsOk (update S n none) made (sem.serial :: destroyed) := by
  have hold : ∀ m s, update S n none m = some s → m ≠ n ∧ S m = some s :=
    fun _ _ => update_none_eq_some.mp
  refine ⟨fun m s hs => h.held m s (hold m s hs).2,
    fun m k s s' hs hs' => h.serials m k s s' (hold m s hs).2 (hold k s' hs').2,
    fun m s hs => h.lt m s (hold m s hs).2, ?_, fun k => ?_⟩
  · refine List.nodup_cons.mpr ⟨fun hmem => ?_, h.once⟩
    exact ((h.gone _).mp hmem).2 n sem hn rfl
  · rw [List.mem_cons, h.gone]
    constructor
    · rintro (rfl | ⟨hlt, hk⟩)
      · refine ⟨h.lt n sem hn, fun m s hs he => ?_⟩
        obtain ⟨hne, hs⟩ := hold m s hs
        exact hne (h.serials m n s sem hs hn he)
      · exact ⟨hlt, fun m s hs => hk m s (hold m s hs).2⟩
    · rintro ⟨hlt, hk⟩
      refine or_iff_not_imp_left.mpr fun hne => ⟨hlt, fun m s hs he => ?_⟩
      by_cases hm : m = n
      · subst hm
        rw [hn] at hs
        cases hs
        exact hne he.symm
      · exact hk m s (by rw [update_of_ne hm, hs]) he

/-- A semaphore is made. -/
theorem SemsOk.add (h : SemsOk S made destroyed) (hn : S n = none)
    (hserial : sem.serial = made) (hheld : sem.semsLinked = true ∨ sem.semsHasvnode = true) :
    SemsOk (update S n (some sem)) (made + 1) destroyed := by
  have hold : ∀ m s, update S n (some sem) m = some s →
      m = n ∧ s = sem ∨ m ≠ n ∧ S m = some s := fun _ _ => update_some_eq_some.mp
  refine ⟨fun m s hs => ?_, fun m k s s' hs hs' he => ?_, fun m s hs => ?_, h.once, fun k => ?_⟩
  · rcases hold m s hs with ⟨-, rfl⟩ | ⟨-, hs⟩
    · exact hheld
    · exact h.held m s hs
  · rcases hold m s hs with ⟨hmn, hsem⟩ | ⟨-, hs₀⟩ <;>
      rcases hold k s' hs' with ⟨hkn, hsem'⟩ | ⟨-, hs₁⟩
    · exact hmn.trans hkn.symm
    · have := h.lt k s' hs₁
      rw [← he, hsem] at this
      omega
    · have := h.lt m s hs₀
      rw [he, hsem'] at this
      omega
    · exact h.serials m k s s' hs₀ hs₁ he
  · rcases hold m s hs with ⟨-, rfl⟩ | ⟨-, hs⟩
    · omega
    · exact (h.lt m s hs).trans (Nat.lt_succ_self _)
  · rw [h.gone]
    constructor
    · rintro ⟨hlt, hk⟩
      refine ⟨hlt.trans (Nat.lt_succ_self _), fun m s hs => ?_⟩
      rcases hold m s hs with ⟨-, rfl⟩ | ⟨-, hs⟩
      · omega
      · exact hk m s hs
    · rintro ⟨hlt, hk⟩
      have hne := hk n sem (update_self ..)
      refine ⟨by omega, fun m s hs => hk m s ?_⟩
      rw [update_of_ne, hs]
      rintro rfl
      rw [hn] at hs
      cases hs

/-- A semaphore is made and destroyed at once. -/
theorem SemsOk.undo (h : SemsOk S made destroyed) :
    SemsOk S (made + 1) (made :: destroyed) := by
  refine ⟨h.held, h.serials, fun m s hs => (h.lt m s hs).trans (Nat.lt_succ_self _), ?_,
    fun k => ?_⟩
  · refine List.nodup_cons.mpr ⟨fun hmem => ?_, h.once⟩
    exact absurd ((h.gone _).mp hmem).1 (lt_irrefl _)
  · rw [List.mem_cons, h.gone]
    constructor
    · rintro (rfl | ⟨hlt, hk⟩)
      · exact ⟨Nat.lt_succ_self _, fun m s hs => (h.lt m s hs).ne⟩
      · exact ⟨hlt.trans (Nat.lt_succ_self _), hk⟩
    · rintro ⟨hlt, hk⟩
      exact (Nat.lt_succ_iff_lt_or_eq.mp hlt).symm.imp_right fun hlt => ⟨hlt, hk⟩

end Parts

end Semfs

end OS161
