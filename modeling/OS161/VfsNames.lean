import Mathlib.Data.List.Perm.Basic
import OS161.Basic
import OS161.Transition

/-!
# Names of devices and volumes

`vfs/vfslist.c` keeps a table of devices and file systems. An entry has up to three names : the
name of the device, that of its raw device if it can be mounted on, and the volume name of the
file system on it, which comes from the disk. `vfs_getroot` goes through the table and answers
for the first entry with a given name.

`vfs_doadd` refuses names that are taken (`badnames`). `vfs_mount` does not look at the volume
name at all, so that a disk can take the name of another device (`vfsMount_clash`). If no
volume is mounted whose name another entry has, no name ever belongs to two entries, and the
order of the table does not matter to `vfs_getroot` (`names_unambiguous`).
-/

namespace OS161

/-! ## The table -/

/-- A C string, without its terminating zero. -/
abbrev VfsName :=
  List UInt8

/-- `struct fs` : which file system it is, and what `FSOP_GETVOLNAME` returns. -/
structure VfsFs where
  id : ℕ
  volname : Option VfsName
  deriving DecidableEq, Repr

/-- `kd_fs` : `NULL`, `SWAP_FS`, or a file system. -/
inductive KdFs
  | null
  | swapFs
  | fs (fs : VfsFs)
  deriving DecidableEq, Repr

/-- `struct knowndev`. -/
structure Knowndev where
  kdName : VfsName
  kdRawname : Option VfsName
  kdDevice : Option ℕ
  kdVnode : ℕ
  kdFs : KdFs
  deriving DecidableEq, Repr

namespace Knowndev

/-- The volume name of the file system, if there is one and it has a name. -/
def volname (kd : Knowndev) : Option VfsName :=
  match kd.kdFs with
  | .fs fs => fs.volname
  | _ => none

/-- The names of an entry. -/
def names (kd : Knowndev) : List VfsName :=
  kd.kdName :: (kd.kdRawname.toList ++ kd.volname.toList)

end Knowndev

/-! ## Looking a name up -/

/-- What `vfs_getroot` answers : `FSOP_GETROOT` of a file system, the vnode of a device, or an
error. -/
inductive GetrootAnswer
  | root (fs : VfsFs)
  | device (vnode : ℕ)
  | error (e : Errno)
  deriving DecidableEq, Repr

/-- The device itself, with the assertions before it. -/
def Knowndev.deviceAnswer (kd : Knowndev) : Except Halt GetrootAnswer := do
  kassert kd.kdDevice.isSome "kd->kd_device != NULL"
  .ok (.device kd.kdVnode)

/-- One round of the loop of `vfs_getroot` : `none` if the entry does not have the name. -/
def Knowndev.getroot (kd : Knowndev) (devname : VfsName) : Option (Except Halt GetrootAnswer) :=
  let byRawname :=
    if kd.kdRawname = some devname then some kd.deviceAnswer else none
  let byName :=
    if kd.kdName = devname then
      some do
        kassert (kd.kdFs = .null) "kd->kd_fs==NULL"
        kassert kd.kdRawname.isNone "kd->kd_rawname==NULL"
        kd.deviceAnswer
    else byRawname
  match kd.kdFs with
  | .fs fs =>
    if kd.kdName = devname ∨ fs.volname = some devname then some (.ok (.root fs)) else byName
  | _ =>
    if kd.kdRawname.isSome ∧ kd.kdName = devname then some (.ok (.error Errno.ENXIO)) else byName

/-- `vfs_getroot`. -/
def vfsGetroot (knowndevs : List Knowndev) (devname : VfsName) : Except Halt GetrootAnswer :=
  (knowndevs.findSome? fun kd => kd.getroot devname).getD (.ok (.error .ENODEV))

/-! ## Changing the table -/

/-- `samestring`. -/
def samestring (a b : Option VfsName) : Bool :=
  a.isSome && b.isSome && a == b

/-- `samestring3`. -/
def samestring3 (a b c d : Option VfsName) : Bool :=
  samestring a b || samestring a c || samestring a d

/-- `badnames`. -/
def badnames (knowndevs : List Knowndev) (n1 n2 n3 : Option VfsName) : Bool :=
  knowndevs.any fun kd =>
    samestring3 kd.volname n1 n2 n3 || samestring3 kd.kdRawname n1 n2 n3 ||
      samestring3 (some kd.kdName) n1 n2 n3

/-- `mkrawname`, with memory for the name. -/
def mkrawname (name : VfsName) : VfsName :=
  name ++ [114, 97, 119]

/-- `vfs_doadd`. `room` says whether there is memory for the entry, and `tableRoom` whether the
table can grow; `vnode` is what `dev_create_vnode` returns. -/
def vfsDoadd (knowndevs : List Knowndev) (dname : VfsName) (mountable : Bool) (dev : Option ℕ)
    (fs : KdFs) (vnode : ℕ) (room tableRoom : Bool) : Option Errno × List Knowndev :=
  if room = false then (some .ENOMEM, knowndevs)
  else
    let kd : Knowndev := ⟨dname, if mountable then some (mkrawname dname) else none, dev, vnode, fs⟩
    if badnames knowndevs (some kd.kdName) kd.kdRawname kd.volname then (some .EEXIST, knowndevs)
    else if tableRoom = false then (some .ENOMEM, knowndevs)
    else (none, knowndevs ++ [kd])

/-- `vfs_adddev`. -/
def vfsAdddev (knowndevs : List Knowndev) (devname : VfsName) (dev : ℕ) (mountable : Bool)
    (vnode : ℕ) (room tableRoom : Bool) : Option Errno × List Knowndev :=
  vfsDoadd knowndevs devname mountable (some dev) .null vnode room tableRoom

/-- `vfs_addfs`. -/
def vfsAddfs (knowndevs : List Knowndev) (devname : VfsName) (fs : VfsFs) (vnode : ℕ)
    (room tableRoom : Bool) : Option Errno × List Knowndev :=
  vfsDoadd knowndevs devname false none (.fs fs) vnode room tableRoom

/-- `findmount` : the index of the first mountable device with the name. -/
def findmount (knowndevs : List Knowndev) (devname : VfsName) : Option ℕ :=
  knowndevs.findIdx? fun kd => kd.kdRawname.isSome && kd.kdName == devname

/-- `kd->kd_fs = fs` for the entry at `i`. -/
def setKdFs (knowndevs : List Knowndev) (i : ℕ) (fs : KdFs) : List Knowndev :=
  knowndevs.modify i fun kd => { kd with kdFs := fs }

/-- `vfs_mount`. `outcome` is what `mountfunc` returns for the device : an error, or the file
system on it. -/
def vfsMount (knowndevs : List Knowndev) (devname : VfsName) (outcome : Except Errno VfsFs) :
    Except Halt (Option Errno × List Knowndev) :=
  match findmount knowndevs devname with
  | none => .ok (some .ENODEV, knowndevs)
  | some i => do
    let kd ← deref knowndevs[i]?
    if kd.kdFs ≠ .null then .ok (some .EBUSY, knowndevs)
    else do
      kassert kd.kdRawname.isSome "kd->kd_rawname != NULL"
      kassert kd.kdDevice.isSome "kd->kd_device != NULL"
      match outcome with
      | .error e => .ok (some e, knowndevs)
      | .ok fs => .ok (none, setKdFs knowndevs i (.fs fs))

/-- `vfs_unmount`. `outcome` is the error of `FSOP_SYNC` or `FSOP_UNMOUNT`, if one fails. -/
def vfsUnmount (knowndevs : List Knowndev) (devname : VfsName) (outcome : Option Errno) :
    Except Halt (Option Errno × List Knowndev) :=
  match findmount knowndevs devname with
  | none => .ok (some .ENODEV, knowndevs)
  | some i => do
    let kd ← deref knowndevs[i]?
    if kd.kdFs = .null ∨ kd.kdFs = .swapFs then .ok (some .EINVAL, knowndevs)
    else do
      kassert kd.kdRawname.isSome "kd->kd_rawname != NULL"
      kassert kd.kdDevice.isSome "kd->kd_device != NULL"
      match outcome with
      | some e => .ok (some e, knowndevs)
      | none => .ok (none, setKdFs knowndevs i .null)

/-- The calls that change the table. -/
inductive VfsOp
  | adddev (devname : VfsName) (dev : ℕ) (mountable : Bool) (vnode : ℕ) (room tableRoom : Bool)
  | addfs (devname : VfsName) (fs : VfsFs) (vnode : ℕ) (room tableRoom : Bool)
  | mount (devname : VfsName) (outcome : Except Errno VfsFs)
  | unmount (devname : VfsName) (outcome : Option Errno)

/-- One call. -/
def VfsOp.run (knowndevs : List Knowndev) : VfsOp → Except Halt (Option Errno × List Knowndev)
  | .adddev devname dev mountable vnode room tableRoom =>
    .ok (vfsAdddev knowndevs devname dev mountable vnode room tableRoom)
  | .addfs devname fs vnode room tableRoom =>
    .ok (vfsAddfs knowndevs devname fs vnode room tableRoom)
  | .mount devname outcome => vfsMount knowndevs devname outcome
  | .unmount devname outcome => vfsUnmount knowndevs devname outcome

/-- A call that returns. -/
def VfsOp.Step (knowndevs : List Knowndev) (op : VfsOp) (knowndevs' : List Knowndev) : Prop :=
  ∃ result, op.run knowndevs = .ok (result, knowndevs')

/-! ## Names that belong to one entry -/

/-- No name belongs to two entries. -/
def Unambiguous (knowndevs : List Knowndev) : Prop :=
  ∀ (i j : ℕ) (kd kd' : Knowndev) (n : VfsName), knowndevs[i]? = some kd →
    knowndevs[j]? = some kd' → n ∈ kd.names → n ∈ kd'.names → i = j

section Names

variable {knowndevs knowndevs' : List Knowndev} {kd : Knowndev} {n : VfsName}

theorem Knowndev.mem_names : n ∈ kd.names ↔
    n = kd.kdName ∨ kd.kdRawname = some n ∨ kd.volname = some n := by
  simp [Knowndev.names, eq_comm]

theorem samestring_iff {a b : Option VfsName} :
    samestring a b = true ↔ ∃ n, a = some n ∧ b = some n := by
  cases a <;> cases b <;> simp [samestring, @eq_comm VfsName]

/-- `badnames` finds a name of the new entry that some entry has. -/
theorem badnames_iff (kd : Knowndev) :
    badnames knowndevs (some kd.kdName) kd.kdRawname kd.volname = true ↔
      ∃ kd' ∈ knowndevs, ∃ n ∈ kd.names, n ∈ kd'.names := by
  have key : ∀ a, samestring3 a (some kd.kdName) kd.kdRawname kd.volname = true ↔
      ∃ n ∈ kd.names, a = some n := by
    intro a
    simp only [samestring3, Bool.or_eq_true, samestring_iff, Knowndev.mem_names]
    constructor
    · rintro ((⟨n, ha, hn⟩ | ⟨n, ha, hn⟩) | ⟨n, ha, hn⟩)
      · exact ⟨n, Or.inl (Option.some.inj hn).symm, ha⟩
      · exact ⟨n, Or.inr (Or.inl hn), ha⟩
      · exact ⟨n, Or.inr (Or.inr hn), ha⟩
    · rintro ⟨n, rfl | hn | hn, ha⟩
      · exact Or.inl (Or.inl ⟨_, ha, rfl⟩)
      · exact Or.inl (Or.inr ⟨n, ha, hn⟩)
      · exact Or.inr ⟨n, ha, hn⟩
  simp only [badnames, List.any_eq_true, Bool.or_eq_true, key]
  refine exists_congr fun kd' => and_congr_right fun _ => ?_
  constructor
  · rintro ((⟨n, hn, h⟩ | ⟨n, hn, h⟩) | ⟨n, hn, h⟩)
    · exact ⟨n, hn, Knowndev.mem_names.mpr (Or.inr (Or.inr h))⟩
    · exact ⟨n, hn, Knowndev.mem_names.mpr (Or.inr (Or.inl h))⟩
    · exact ⟨n, hn, Knowndev.mem_names.mpr (Or.inl (Option.some.inj h).symm)⟩
  · rintro ⟨n, hn, h⟩
    rcases Knowndev.mem_names.mp h with rfl | h | h
    · exact Or.inr ⟨_, hn, rfl⟩
    · exact Or.inl (Or.inr ⟨n, hn, h⟩)
    · exact Or.inl (Or.inl ⟨n, hn, h⟩)

/-- An entry whose names no entry has can be added. -/
theorem Unambiguous.append (h : Unambiguous knowndevs)
    (hnew : ∀ kd' ∈ knowndevs, ∀ n ∈ kd.names, n ∉ kd'.names) :
    Unambiguous (knowndevs ++ [kd]) := by
  have hsplit : ∀ {i : ℕ} {x : Knowndev}, (knowndevs ++ [kd])[i]? = some x →
      knowndevs[i]? = some x ∨ i = knowndevs.length ∧ x = kd := by
    intro i x hx
    rw [List.getElem?_append] at hx
    split_ifs at hx with hi
    · exact Or.inl hx
    · rw [List.getElem?_singleton] at hx
      split_ifs at hx with h0
      exact Or.inr ⟨by omega, (Option.some.inj hx).symm⟩
  intro i j x y n hx hy hnx hny
  rcases hsplit hx with hx' | ⟨rfl, rfl⟩ <;> rcases hsplit hy with hy' | ⟨rfl, rfl⟩
  · exact h i j x y n hx' hy' hnx hny
  · exact absurd hnx (hnew x (List.mem_of_getElem? hx') n hny)
  · exact absurd hny (hnew y (List.mem_of_getElem? hy') n hnx)
  · rfl

/-- The file system of an entry can change if the new volume name belongs to no other entry. -/
theorem Unambiguous.setKdFs (h : Unambiguous knowndevs) {i : ℕ} {fs : KdFs}
    (hnew : ∀ kd, knowndevs[i]? = some kd → ∀ n,
      ({ kd with kdFs := fs } : Knowndev).volname = some n →
      ∀ j kd', knowndevs[j]? = some kd' → j ≠ i → n ∉ kd'.names) :
    Unambiguous (setKdFs knowndevs i fs) := by
  -- A name of the entry at `j` after the change is a name it had, or the new volume name.
  have key : ∀ {j : ℕ} {x : Knowndev} {n : VfsName}, (OS161.setKdFs knowndevs i fs)[j]? = some x →
      n ∈ x.names → ∃ kd, knowndevs[j]? = some kd ∧ (n ∈ kd.names ∨
        j = i ∧ ({ kd with kdFs := fs } : Knowndev).volname = some n) := by
    intro j x n hx hn
    rw [OS161.setKdFs, List.getElem?_modify] at hx
    obtain ⟨kd, hkd, rfl⟩ := Option.map_eq_some_iff.mp hx
    refine ⟨kd, hkd, ?_⟩
    split_ifs at hn with hij
    · rcases Knowndev.mem_names.mp hn with hn | hn | hn
      · exact Or.inl (Knowndev.mem_names.mpr (Or.inl hn))
      · exact Or.inl (Knowndev.mem_names.mpr (Or.inr (Or.inl hn)))
      · exact Or.inr ⟨hij.symm, hn⟩
    · exact Or.inl hn
  intro j j' x y n hx hy hnx hny
  obtain ⟨a, ha, hna⟩ := key hx hnx
  obtain ⟨b, hb, hnb⟩ := key hy hny
  rcases hna with hna | ⟨rfl, hna⟩ <;> rcases hnb with hnb | ⟨rfl, hnb⟩
  · exact h j j' a b n ha hb hna hnb
  · by_contra hne
    exact hnew b hb n hnb j a ha hne hna
  · by_contra hne
    exact hnew a ha n hna j' b hb (Ne.symm hne) hnb
  · rfl

end Names

/-! ## The order of the table -/

/-- An entry answers only for its names. -/
theorem Knowndev.mem_names_of_getroot {kd : Knowndev} {n : VfsName}
    (h : (kd.getroot n).isSome) : n ∈ kd.names := by
  rw [Knowndev.mem_names]
  by_contra! hn
  obtain ⟨hname, hraw, hvol⟩ := hn
  have hfs : ∀ fs, kd.kdFs = .fs fs → fs.volname ≠ some n := by
    intro fs hfs
    simpa only [Knowndev.volname, hfs] using hvol
  cases hkd : kd.kdFs with
  | fs fs => simp [Knowndev.getroot, hkd, Ne.symm hname, hraw, hfs fs hkd] at h
  | null | swapFs => simp [Knowndev.getroot, hkd, Ne.symm hname, hraw] at h

/-- If only one element can answer, it does not matter where it stands. -/
theorem findSome?_eq_of_perm {α β : Type*} {f : α → Option β} {l l' : List α} (hp : l.Perm l')
    (huniq : ∀ a ∈ l, ∀ b ∈ l, (f a).isSome → (f b).isSome → a = b) :
    l.findSome? f = l'.findSome? f := by
  cases h : l.findSome? f with
  | none =>
    rw [List.findSome?_eq_none_iff] at h
    exact (List.findSome?_eq_none_iff.mpr fun a ha => h a (hp.mem_iff.mpr ha)).symm
  | some x =>
    obtain ⟨a, ha, hfa⟩ := List.exists_of_findSome?_eq_some h
    cases h' : l'.findSome? f with
    | none =>
      rw [List.findSome?_eq_none_iff] at h'
      rw [h' a (hp.mem_iff.mp ha)] at hfa
      cases hfa
    | some y =>
      obtain ⟨b, hb, hfb⟩ := List.exists_of_findSome?_eq_some h'
      obtain rfl := huniq a ha b (hp.mem_iff.mpr hb) (by simp [hfa]) (by simp [hfb])
      exact hfa.symm.trans hfb

/-- If names are unambiguous, `vfs_getroot` does not depend on the order of the entries. -/
theorem Unambiguous.vfsGetroot_eq
    (h : Unambiguous knowndevs) (hp : knowndevs'.Perm knowndevs) (n : VfsName) :
    vfsGetroot knowndevs' n = vfsGetroot knowndevs n := by
  have huniq : ∀ a ∈ knowndevs, ∀ b ∈ knowndevs, (a.getroot n).isSome → (b.getroot n).isSome →
      a = b := by
    intro a ha b hb hna hnb
    obtain ⟨i, hi⟩ := List.mem_iff_getElem?.mp ha
    obtain ⟨j, hj⟩ := List.mem_iff_getElem?.mp hb
    obtain rfl := h i j a b n hi hj (Knowndev.mem_names_of_getroot hna)
      (Knowndev.mem_names_of_getroot hnb)
    exact Option.some.inj (hi.symm.trans hj)
  rw [vfsGetroot, vfsGetroot, findSome?_eq_of_perm hp.symm huniq]

/-! ## Runs -/

theorem vfsDoadd_cases {dname : VfsName} {mountable : Bool}
    {dev : Option ℕ} {fs : KdFs} {vnode : ℕ} {room tableRoom : Bool}
    (h : vfsDoadd knowndevs dname mountable dev fs vnode room tableRoom = (result, knowndevs')) :
    knowndevs' = knowndevs ∨ ∃ kd, knowndevs' = knowndevs ++ [kd] ∧
      badnames knowndevs (some kd.kdName) kd.kdRawname kd.volname = false := by
  rw [vfsDoadd] at h
  generalize (⟨dname, if mountable then some (mkrawname dname) else none, dev, vnode, fs⟩ :
    Knowndev) = kd at h
  dsimp only at h
  split_ifs at h with _ hbad _ <;> obtain ⟨-, rfl⟩ := Prod.mk.inj h
  · exact Or.inl rfl
  · exact Or.inl rfl
  · exact Or.inl rfl
  · exact Or.inr ⟨kd, rfl, by simpa using hbad⟩

theorem vfsMount_cases
    {outcome : Except Errno VfsFs}
    (h : vfsMount knowndevs devname outcome = .ok (result, knowndevs')) :
    knowndevs' = knowndevs ∨ ∃ fs i, outcome = .ok fs ∧ findmount knowndevs devname = some i ∧
      knowndevs' = setKdFs knowndevs i (.fs fs) := by
  rw [vfsMount] at h
  split at h
  · cases h
    exact Or.inl rfl
  · rename_i i hi
    obtain ⟨kd, -, h⟩ := bind_eq_ok.mp h
    split_ifs at h
    · cases h
      exact Or.inl rfl
    · obtain ⟨-, -, h⟩ := bind_eq_ok.mp h
      obtain ⟨-, -, h⟩ := bind_eq_ok.mp h
      cases outcome with
      | error e =>
        cases h
        exact Or.inl rfl
      | ok fs =>
        cases h
        exact Or.inr ⟨fs, i, rfl, hi, rfl⟩

theorem vfsUnmount_cases
    {outcome : Option Errno}
    (h : vfsUnmount knowndevs devname outcome = .ok (result, knowndevs')) :
    knowndevs' = knowndevs ∨ ∃ i, knowndevs' = setKdFs knowndevs i .null := by
  rw [vfsUnmount] at h
  split at h
  · cases h
    exact Or.inl rfl
  · rename_i i hi
    obtain ⟨kd, -, h⟩ := bind_eq_ok.mp h
    split_ifs at h
    · cases h
      exact Or.inl rfl
    · obtain ⟨-, -, h⟩ := bind_eq_ok.mp h
      obtain ⟨-, -, h⟩ := bind_eq_ok.mp h
      cases outcome with
      | some e =>
        cases h
        exact Or.inl rfl
      | none =>
        cases h
        exact Or.inr ⟨i, rfl⟩

/-- What a call does to the table : nothing, a new entry whose names are free, a volume on an
entry, or an entry without its volume. -/
theorem VfsOp.step_cases {op : VfsOp}
    (h : VfsOp.Step knowndevs op knowndevs') :
    knowndevs' = knowndevs ∨
    (∃ kd, knowndevs' = knowndevs ++ [kd] ∧
      badnames knowndevs (some kd.kdName) kd.kdRawname kd.volname = false) ∨
    (∃ devname fs i, op = .mount devname (.ok fs) ∧ findmount knowndevs devname = some i ∧
      knowndevs' = setKdFs knowndevs i (.fs fs)) ∨
    ∃ i, knowndevs' = setKdFs knowndevs i .null := by
  obtain ⟨result, h⟩ := h
  cases op with
  | adddev devname dev mountable vnode room tableRoom | addfs devname fs vnode room tableRoom =>
    rcases vfsDoadd_cases (Except.ok.inj h) with h | h
    · exact Or.inl h
    · exact Or.inr (Or.inl h)
  | mount devname outcome =>
    rcases vfsMount_cases h with h | ⟨fs, i, rfl, hi, h⟩
    · exact Or.inl h
    · exact Or.inr (Or.inr (Or.inl ⟨devname, fs, i, rfl, hi, h⟩))
  | unmount devname outcome =>
    rcases vfsUnmount_cases h with h | h
    · exact Or.inl h
    · exact Or.inr (Or.inr (Or.inr h))

/-- The call mounts no volume whose name another entry has. -/
def VolumeFresh (knowndevs : List Knowndev) : VfsOp → Prop
  | .mount devname (.ok fs) => ∀ (i j : ℕ) (kd : Knowndev) (n : VfsName),
      findmount knowndevs devname = some i → knowndevs[j]? = some kd → j ≠ i →
      fs.volname = some n → n ∉ kd.names
  | _ => True

theorem Unambiguous.step {op : VfsOp}
    (h : Unambiguous knowndevs)
    (hs : guarded VolumeFresh VfsOp.Step knowndevs op knowndevs') :
    Unambiguous knowndevs' := by
  obtain ⟨hs, hfresh⟩ := hs
  rcases VfsOp.step_cases hs with rfl | ⟨kd, rfl, hbad⟩ | ⟨devname, fs, i, rfl, hi, rfl⟩ | ⟨i, rfl⟩
  · exact h
  · refine h.append fun kd' hkd' n hn hn' => ?_
    rw [Bool.eq_false_iff, ne_eq, badnames_iff] at hbad
    exact hbad ⟨kd', hkd', n, hn, hn'⟩
  · exact h.setKdFs fun kd _ n hn j kd' hj hne => hfresh i j kd' n hi hj hne hn
  · refine h.setKdFs fun kd _ n hn => ?_
    cases hn

/-- If every volume that is mounted has a name that belongs to no other entry, no name ever
belongs to two entries, and `vfs_getroot` gives the same answer for every order of the table. -/
theorem names_unambiguous {tr : List VfsOp}
    (hr : Run (guarded VolumeFresh VfsOp.Step) [] tr knowndevs) :
    Unambiguous knowndevs ∧ ∀ (knowndevs' : List Knowndev) (devname : VfsName),
      knowndevs'.Perm knowndevs → vfsGetroot knowndevs' devname = vfsGetroot knowndevs devname := by
  have h : Unambiguous knowndevs :=
    hr.invariant (fun i j kd kd' n hi => by simp at hi) fun _ _ _ h hs => h.step hs
  exact ⟨h, fun knowndevs' devname hp => h.vfsGetroot_eq hp devname⟩

/-- The table of a machine with two disks, `lhd0` and `lhd1`, the first with a volume. -/
def twoDisks (volname : VfsName) : List Knowndev :=
  [⟨[108, 104, 100, 48], some [108, 104, 100, 48, 114, 97, 119], some 0, 10, .fs ⟨0, some volname⟩⟩,
    ⟨[108, 104, 100, 49], some [108, 104, 100, 49, 114, 97, 119], some 1, 11, .null⟩]

/-- How the table comes to be : both disks are added, and the first is mounted. -/
def twoDisksTrace (volname : VfsName) : List VfsOp :=
  [.mount [108, 104, 100, 48] (.ok ⟨0, some volname⟩),
    .adddev [108, 104, 100, 49] 1 true 11 true true,
    .adddev [108, 104, 100, 48] 0 true 10 true true]

/-- A volume `vol` on `lhd0` : the reversed table finds it too. -/
theorem names_unambiguous_vol :
    Run (guarded VolumeFresh VfsOp.Step) [] (twoDisksTrace [118, 111, 108])
        (twoDisks [118, 111, 108]) ∧ Unambiguous (twoDisks [118, 111, 108]) ∧
      vfsGetroot (twoDisks [118, 111, 108]).reverse [118, 111, 108] =
        .ok (.root ⟨0, some [118, 111, 108]⟩) := by
  have hfresh : VolumeFresh
      ((twoDisks [118, 111, 108]).map fun kd => { kd with kdFs := .null })
      (.mount [108, 104, 100, 48] (.ok ⟨0, some [118, 111, 108]⟩)) := by
    rintro i j kd n - hj - hn hmem
    obtain rfl := Option.some.inj hn
    have hnot : ∀ kd ∈ (twoDisks [118, 111, 108]).map fun kd => { kd with kdFs := .null },
        [118, 111, 108] ∉ kd.names := by
      decide
    exact hnot kd (List.mem_of_getElem? hj) hmem
  have hrun : Run (guarded VolumeFresh VfsOp.Step) [] (twoDisksTrace [118, 111, 108])
      (twoDisks [118, 111, 108]) :=
    .snoc (.snoc (.snoc .start ⟨⟨none, rfl⟩, trivial⟩) ⟨⟨none, rfl⟩, trivial⟩)
      ⟨⟨none, rfl⟩, hfresh⟩
  obtain ⟨hun, horder⟩ := names_unambiguous hrun
  exact ⟨hrun, hun, (horder _ _ (List.reverse_perm _)).trans rfl⟩

/-- A volume on `lhd0` that calls itself `lhd1`. Both entries have the name `lhd1` : the table
gives the volume for it, and the reversed table says that nothing is mounted on `lhd1`. -/
theorem vfsMount_clash :
    Run VfsOp.Step [] (twoDisksTrace [108, 104, 100, 49]) (twoDisks [108, 104, 100, 49]) ∧
      ¬Unambiguous (twoDisks [108, 104, 100, 49]) ∧
      vfsGetroot (twoDisks [108, 104, 100, 49]) [108, 104, 100, 49] =
        .ok (.root ⟨0, some [108, 104, 100, 49]⟩) ∧
      vfsGetroot (twoDisks [108, 104, 100, 49]).reverse [108, 104, 100, 49] =
        .ok (.error Errno.ENXIO) := by
  refine ⟨.snoc (.snoc (.snoc .start ⟨none, rfl⟩) ⟨none, rfl⟩) ⟨none, rfl⟩, ?_, rfl, rfl⟩
  intro h
  have h01 := h 0 1 _ _ [108, 104, 100, 49] rfl rfl (by decide) (by decide)
  exact absurd h01 (by decide)

end OS161
