import OS161.SemfsCalls
import OS161.Uio

/-!
# Listing the directory of `semfs`

`semfs_getdirentry` takes the offset as the number of a slot, and `uiomove` adds the length of the
name to it. So the next call looks at the slot that is as many slots further on as the name has
bytes, and reads through `NULL` if that slot is free. A listing from offset `0` is complete exactly
if every entry is followed by as many free slots as its name has bytes, less one, and then by the
next entry or the end (`Spaced`, `semfs_listing_iff`).

`Lists` is the loop of a caller that goes on until nothing is read. The entries it gets are some of
those from its slot on (`Lists.length_le`), and all of them only if the skipped slots are free
(`Lists.spaced`).
-/

namespace OS161

open SlotTable

namespace Semfs

/-! ## Calls -/

/-- `semfs_getdirentry`. The directory and the names are in memory, so that the offset fits into
`pos`. -/
def getdirentry (fs : Semfs) (u : Uio) : Except Halt Uio :=
  let pos := u.uioOffset
  let num := fs.semfsDents.length
  if num ≤ pos then .ok u
  else do
    let dent ← deref (← arrayGet fs.semfsDents pos)
    let r ← uiomove (fun i => dent.semdName.bytes.getD i 0) 0 dent.semdName.bytes.length u
    .ok r.2

/-- A call with a buffer of `len` bytes : what was read, and the offset it leaves. -/
def readEntry (fs : Semfs) (len pos : ℕ) : Except Halt (List UInt8 × ℕ) := do
  let u ← fs.getdirentry ⟨[len], pos, len, .read, []⟩
  .ok (u.bytes, u.uioOffset)

/-- Calls from `pos` on, each with the offset the one before it left, read these names and then
nothing. -/
inductive Lists (fs : Semfs) (len : ℕ) : ℕ → List (List UInt8) → Prop
  | done {pos pos' : ℕ} : fs.readEntry len pos = .ok ([], pos') → Lists fs len pos []
  | entry {pos pos' : ℕ} {bytes : List UInt8} {names : List (List UInt8)} :
      fs.readEntry len pos = .ok (bytes, pos') → bytes ≠ [] → Lists fs len pos' names →
      Lists fs len pos (bytes :: names)

/-- The names from slot `pos` on. -/
def namesFrom (fs : Semfs) (pos : ℕ) : List (List UInt8) :=
  (fs.semfsDents.drop pos).reduceOption.map fun dent => dent.semdName.bytes

/-- There is an entry in slot `pos`, or it is the end; and from there on every entry is followed by
free slots, one less than its name has bytes, and then by an entry or the end. -/
structure SpacedFrom (fs : Semfs) (pos : ℕ) : Prop where
  start : pos < fs.semfsDents.length → slot fs.semfsDents pos ≠ none
  nonempty : ∀ i dent, pos ≤ i → slot fs.semfsDents i = some dent → dent.semdName.bytes ≠ []
  free : ∀ i dent, pos ≤ i → slot fs.semfsDents i = some dent →
    ∀ j, i < j → j < i + dent.semdName.bytes.length → slot fs.semfsDents j = none
  next : ∀ i dent, pos ≤ i → slot fs.semfsDents i = some dent →
    i + dent.semdName.bytes.length < fs.semfsDents.length →
      slot fs.semfsDents (i + dent.semdName.bytes.length) ≠ none

/-- The slots of the directory are spaced as the names are long. -/
abbrev Spaced (fs : Semfs) : Prop :=
  fs.SpacedFrom 0

section Listing

variable {fs : Semfs} {len pos pos' : ℕ} {dent : SemfsDirentry} {names : List (List UInt8)}
  {bytes : List UInt8}

/-! ## One call -/

theorem readEntry_end (h : fs.semfsDents.length ≤ pos) : fs.readEntry len pos = .ok ([], pos) := by
  rw [readEntry, getdirentry, if_pos h, ok_bind]

theorem readEntry_free (h : pos < fs.semfsDents.length) (hs : slot fs.semfsDents pos = none) :
    fs.readEntry len pos = .error .nullDeref := by
  rw [readEntry, getdirentry, if_neg (not_le.mpr h), arrayGet_eq h, ok_bind, hs]
  rfl

theorem slice_getD (l : List UInt8) : Uio.slice (fun i => l.getD i 0) 0 l.length = l := by
  refine List.ext_getElem (Uio.length_slice _ _ _) fun i h1 h2 => ?_
  simp [Uio.slice, h2]

theorem readEntry_eq (hs : slot fs.semfsDents pos = some dent)
    (hlen : dent.semdName.bytes.length ≤ len) (h32 : len < 2 ^ 32) :
    fs.readEntry len pos = .ok (dent.semdName.bytes, pos + dent.semdName.bytes.length) := by
  have hpos := lt_of_slot hs
  obtain ⟨iov, -, hmove⟩ := uiomove_eq (fun i => dent.semdName.bytes.getD i 0) 0
    (u := ⟨[len], pos, len, .read, []⟩) h32 hlen (by simp)
  rw [readEntry, getdirentry, if_neg (not_le.mpr hpos), arrayGet_eq hpos, ok_bind, hs, deref,
    ok_bind,
    hmove, ok_bind, ok_bind]
  dsimp only [Uio.transfer]
  rw [slice_getD, List.nil_append]

/-- A call that returns is at the end, or at an entry. -/
theorem readEntry_cases (hlen : ∀ dent ∈ fs.semfsDents.reduceOption,
    dent.semdName.bytes.length ≤ len) (h32 : len < 2 ^ 32)
    (h : fs.readEntry len pos = .ok (bytes, pos')) :
    fs.semfsDents.length ≤ pos ∧ bytes = [] ∨ ∃ dent, slot fs.semfsDents pos = some dent ∧
      bytes = dent.semdName.bytes ∧ pos' = pos + dent.semdName.bytes.length := by
  by_cases hpos : fs.semfsDents.length ≤ pos
  · rw [readEntry_end hpos] at h
    cases h
    exact Or.inl ⟨hpos, rfl⟩
  cases hs : slot fs.semfsDents pos with
  | none =>
    rw [readEntry_free (not_le.mp hpos) hs] at h
    cases h
  | some dent =>
    rw [readEntry_eq hs (hlen dent (mem_reduceOption.mpr ⟨pos, hs⟩)) h32] at h
    cases h
    exact Or.inr ⟨dent, rfl, rfl, rfl⟩

/-! ## The names from one slot on -/

theorem namesFrom_eq_nil (h : fs.semfsDents.length ≤ pos) : fs.namesFrom pos = [] := by
  rw [namesFrom, List.drop_eq_nil_of_le h]
  rfl

/-- The names from an entry on : its own, those of the slots that a listing skips, and those from
where the listing goes on. -/
theorem namesFrom_eq (hs : slot fs.semfsDents pos = some dent) (hne : dent.semdName.bytes ≠ []) :
    fs.namesFrom pos = dent.semdName.bytes ::
      (((fs.semfsDents.drop (pos + 1)).take (dent.semdName.bytes.length - 1)).reduceOption.map
        fun dent => dent.semdName.bytes) ++ fs.namesFrom (pos + dent.semdName.bytes.length) := by
  have hlen := List.length_pos_of_ne_nil hne
  have hdrop : fs.semfsDents.drop pos = some dent :: fs.semfsDents.drop (pos + 1) := by
    have hpos := lt_of_slot hs
    rw [slot_eq_some_iff, List.getElem?_eq_getElem hpos, Option.some.injEq] at hs
    rw [List.drop_eq_getElem_cons hpos, hs]
  have hnext : (fs.semfsDents.drop (pos + 1)).drop (dent.semdName.bytes.length - 1) =
      fs.semfsDents.drop (pos + dent.semdName.bytes.length) := by
    rw [List.drop_drop]
    congr 1
    omega
  rw [namesFrom, namesFrom, hdrop, List.reduceOption_cons_of_some, List.map_cons,
    reduceOption_split _ (dent.semdName.bytes.length - 1), List.map_append, hnext, List.cons_append]

theorem skipped_eq_nil : (((fs.semfsDents.drop (pos + 1)).take
      (dent.semdName.bytes.length - 1)).reduceOption.map fun dent => dent.semdName.bytes) = [] ↔
    ∀ j, pos < j → j < pos + dent.semdName.bytes.length → slot fs.semfsDents j = none := by
  rw [List.map_eq_nil_iff, reduceOption_eq_nil]
  constructor
  · intro h j h1 h2
    have := h (j - (pos + 1))
    rw [slot_take, if_pos (by omega), slot_drop] at this
    rwa [Nat.add_sub_cancel' h1] at this
  · intro h j
    rw [slot_take]
    split_ifs with hj
    · rw [slot_drop]
      exact h _ (by omega) (by omega)
    · rfl

/-! ## A whole listing -/

section Room

variable (hlen : ∀ dent ∈ fs.semfsDents.reduceOption, dent.semdName.bytes.length ≤ len)
  (h32 : len < 2 ^ 32)

include hlen h32

/-- A listing returns no more names than there are. -/
theorem Lists.length_le (h : fs.Lists len pos names) :
    names.length ≤ (fs.namesFrom pos).length := by
  induction h with
  | done => exact Nat.zero_le _
  | entry hread hne _ ih =>
    rcases readEntry_cases hlen h32 hread with ⟨-, rfl⟩ | ⟨dent, hs, rfl, rfl⟩
    · exact absurd rfl hne
    · rw [namesFrom_eq hs hne, List.cons_append, List.length_cons, List.length_cons,
        List.length_append]
      omega

/-- A listing that returns as many names as there are has skipped free slots only. -/
theorem Lists.spaced (h : fs.Lists len pos names)
    (hcount : names.length = (fs.namesFrom pos).length) : fs.SpacedFrom pos := by
  induction h with
  | @done pos pos' hread =>
    have hnil : fs.namesFrom pos = [] := List.length_eq_zero_iff.mp hcount.symm
    have hfree : ∀ i, pos ≤ i → slot fs.semfsDents i = none := by
      intro i hi
      have := reduceOption_eq_nil.mp (List.map_eq_nil_iff.mp hnil) (i - pos)
      rwa [slot_drop, Nat.add_sub_cancel' hi] at this
    have hend : fs.semfsDents.length ≤ pos := by
      rcases readEntry_cases hlen h32 hread with ⟨hend, -⟩ | ⟨dent, hs, -⟩
      · exact hend
      · rw [hfree pos le_rfl] at hs
        cases hs
    refine ⟨fun hlt => absurd hend (not_le.mpr hlt), fun i dent hi hs => ?_,
      fun i dent hi hs => ?_, fun i dent hi hs => ?_⟩
    all_goals
      rw [hfree i hi] at hs
      cases hs
  | @entry pos pos' bytes names hread hne hrest ih =>
    rcases readEntry_cases hlen h32 hread with ⟨-, rfl⟩ | ⟨dent, hs, rfl, rfl⟩
    · exact absurd rfl hne
    have hle := hrest.length_le hlen h32
    rw [namesFrom_eq hs hne, List.cons_append, List.length_cons, List.length_cons,
      List.length_append] at hcount
    have hskip := skipped_eq_nil.mp (List.length_eq_zero_iff.mp
      (show (((fs.semfsDents.drop (pos + 1)).take (dent.semdName.bytes.length - 1)).reduceOption.map
        fun dent => dent.semdName.bytes).length = 0 by omega))
    have hspaced := ih (by omega)
    -- an entry at or after `pos` is the one at `pos`, or after the slots that were skipped
    have hcases : ∀ i dent', pos ≤ i → slot fs.semfsDents i = some dent' →
        i = pos ∧ dent' = dent ∨ pos + dent.semdName.bytes.length ≤ i := by
      intro i dent' hi hs'
      rcases hi.eq_or_lt with rfl | hlt
      · exact Or.inl ⟨rfl, Option.some.inj (hs'.symm.trans hs)⟩
      · refine Or.inr (not_lt.mp fun hlt' => ?_)
        rw [hskip i hlt hlt'] at hs'
        cases hs'
    refine ⟨fun _ hnone => ?_, fun i dent' hi hs' => ?_, fun i dent' hi hs' => ?_,
      fun i dent' hi hs' => ?_⟩
    · rw [hs] at hnone
      cases hnone
    · rcases hcases i dent' hi hs' with ⟨rfl, rfl⟩ | hi
      · exact hne
      · exact hspaced.nonempty i dent' hi hs'
    · rcases hcases i dent' hi hs' with ⟨rfl, rfl⟩ | hi
      · exact hskip
      · exact hspaced.free i dent' hi hs'
    · rcases hcases i dent' hi hs' with ⟨rfl, rfl⟩ | hi
      · exact hspaced.start
      · exact hspaced.next i dent' hi hs'

/-- A listing of spaced slots returns every name, in order. -/
theorem SpacedFrom.lists (h : fs.SpacedFrom pos) : fs.Lists len pos (fs.namesFrom pos) := by
  -- the slots that are left get fewer
  obtain ⟨n, hn⟩ : ∃ n, fs.semfsDents.length - pos = n := ⟨_, rfl⟩
  induction n using Nat.strong_induction_on generalizing pos with
  | _ n ih =>
    by_cases hend : fs.semfsDents.length ≤ pos
    · rw [namesFrom_eq_nil hend]
      exact .done (readEntry_end hend)
    obtain ⟨dent, hs⟩ := Option.ne_none_iff_exists'.mp (h.start (not_le.mp hend))
    have hne := h.nonempty pos dent le_rfl hs
    have hpos := List.length_pos_of_ne_nil hne
    have hrest : fs.SpacedFrom (pos + dent.semdName.bytes.length) :=
      ⟨h.next pos dent le_rfl hs, fun i d hi => h.nonempty i d (by omega),
        fun i d hi => h.free i d (by omega), fun i d hi => h.next i d (by omega)⟩
    rw [namesFrom_eq hs hne, skipped_eq_nil.mpr (h.free pos dent le_rfl hs), List.cons_append,
      List.nil_append]
    refine .entry (readEntry_eq hs (hlen dent (mem_reduceOption.mpr ⟨pos, hs⟩)) h32) hne ?_
    exact ih _ (by omega) hrest rfl

end Room

end Listing

end Semfs

/-- In every state that calls lead to, the names are different. A listing from offset `0` with a
buffer that has room for every name returns each of them once, and then nothing, exactly if the
slots are spaced as the names are long. -/
theorem semfs_listing_iff {tr : List Semfs.Call} {fs : Semfs} {len : ℕ}
    (hrun : Run Semfs.Step .create tr fs)
    (hlen : ∀ dent ∈ fs.semfsDents.reduceOption, dent.semdName.bytes.length ≤ len)
    (h32 : len < 2 ^ 32) : (fs.namesFrom 0).Nodup ∧
      ((∃ names, fs.Lists len 0 names ∧ names.Perm (fs.namesFrom 0)) ↔ fs.Spaced) := by
  refine ⟨?_, ?_, fun h => ⟨_, h.lists hlen h32, List.Perm.refl _⟩⟩
  · refine nodup_map_reduceOption fun i j d d' hi hj he => ?_
    refine (Semfs.run_inStep hrun).dir.names i j d d' hi hj ?_
    cases hd : d.semdName
    cases hd' : d'.semdName
    rw [hd, hd'] at he
    cases he
    rfl
  · rintro ⟨names, hlists, hperm⟩
    exact hlists.spaced hlen h32 hperm.length_eq

/-- All allocations succeed. -/
def SemfsAllocs.plenty : SemfsAllocs :=
  ⟨true, true, true, true, true, true, true, true, true⟩

theorem semfs_listing_iff_letters : ∃ tr fs, Run Semfs.Step .create tr fs ∧
    fs.namesFrom 0 = [[97], [98]] ∧ (fs.namesFrom 0).Nodup ∧
    ((∃ names, fs.Lists 16 0 names ∧ names.Perm (fs.namesFrom 0)) ↔ fs.Spaced) := by
  obtain ⟨tr, fs, hrun, hnames, hlen⟩ := Run.exists_of_execute Semfs.next Semfs.step_of_next .create
    [.creat (letter 97 (by decide)) true .plenty, .creat (letter 98 (by decide)) true .plenty]
    (fun _ fs => fs.namesFrom 0 = [[97], [98]] ∧ ∀ dent ∈ fs.semfsDents.reduceOption,
      dent.semdName.bytes.length ≤ 16) (by decide +kernel)
  exact ⟨tr, fs, hrun, hnames, semfs_listing_iff hrun hlen (by decide)⟩

/-- The name `ab` has two bytes, and the entry in the slot after it is not listed. When the first of
two entries is removed, the listing reads through `NULL`. -/
theorem semfs_listing_loses :
    (∃ tr fs, Run Semfs.Step .create tr fs ∧ fs.namesFrom 0 = [[97, 98], [99]] ∧
      fs.Lists 16 0 [[97, 98]]) ∧
    ∃ tr fs, Run Semfs.Step .create tr fs ∧ fs.namesFrom 0 = [[98]] ∧
      fs.readEntry 16 0 = .error .nullDeref := by
  constructor
  · obtain ⟨tr, fs, hrun, hnames, h0, h2⟩ := Run.exists_of_execute Semfs.next Semfs.step_of_next
      .create [.creat ⟨[97, 98], by decide⟩ true .plenty,
        .creat (letter 99 (by decide)) true .plenty]
      (fun _ fs => fs.namesFrom 0 = [[97, 98], [99]] ∧
        (fs.readEntry 16 0).toOption = some ([97, 98], 2) ∧
        (fs.readEntry 16 2).toOption = some ([], 2)) (by decide +kernel)
    exact ⟨tr, fs, hrun, hnames,
      .entry (eq_ok_of_toOption h0) (by simp) (.done (eq_ok_of_toOption h2))⟩
  · obtain ⟨tr, fs, hrun, hnames, hfree, hpos⟩ := Run.exists_of_execute Semfs.next
      Semfs.step_of_next .create [.creat (letter 97 (by decide)) true .plenty,
        .creat (letter 98 (by decide)) true .plenty, .remove (letter 97 (by decide))]
      (fun _ fs => fs.namesFrom 0 = [[98]] ∧ slot fs.semfsDents 0 = none ∧
        0 < fs.semfsDents.length) (by decide +kernel)
    exact ⟨tr, fs, hrun, hnames, Semfs.readEntry_free hpos hfree⟩

end OS161
