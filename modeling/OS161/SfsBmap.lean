import OS161.SfsTable

/-!
# Allocating and finding blocks

The specifications of `sfs_balloc` and `sfs_bmap`. They hold whatever the device answers, and
say that the users of the file system see no change : a block that is allocated is clear, and
stands for one that was missing. `Sfs.Ok` is the invariant between two steps of a function, which
may have some blocks in hand; the blocks that were lost when an indirect block could not be
written are loose for ever.
-/

namespace OS161

namespace Sfs

variable {s s' s'' : Sfs} {loose : Set ℕ} {b i : ℕ}

/-- The device answers every request with success. -/
def IoOk (s : Sfs) : Prop :=
  ∀ n, s.io n = true

/-- The invariant, when a function has the blocks in `loose` in hand. -/
def Ok (s : Sfs) (loose : Set ℕ) : Prop :=
  s.toVolume.Phys (loose ∪ {b | b ∈ s.leaked})

/-- With the answers `answers` from the start, blocks have been leaked exactly if a write of an
indirect block failed. -/
structure Noted (answers : ℕ → Bool) (s : Sfs) : Prop where
  io : ∀ n, s.io n = answers (s.calls + n)
  leaked : s.leaked = [] ↔ ∀ n ∈ s.idcalls, answers n = true

/-- What holds of the environment after a function. -/
structure Next (s s' : Sfs) : Prop where
  io : s.IoOk → s'.IoOk
  leaked : s.IoOk → s'.leaked = s.leaked
  noted : ∀ answers, s.Noted answers → s'.Noted answers

namespace Noted

variable {answers : ℕ → Bool}

theorem io_zero (h : s.Noted answers) : s.io 0 = answers s.calls :=
  h.io 0

theorem io_succ (h : s.Noted answers) (n : ℕ) : s.io (n + 1) = answers (s.calls + 1 + n) := by
  rw [h.io, Nat.add_assoc, Nat.add_comm n 1]

end Noted

namespace Next

theorem refl (s : Sfs) : Next s s :=
  ⟨id, fun _ => rfl, fun _ => id⟩

theorem trans (h : Next s s') (h' : Next s' s'') : Next s s'' :=
  ⟨fun hio => h'.io (h.io hio), fun hio => (h'.leaked (h.io hio)).trans (h.leaked hio),
    fun answers hn => h'.noted answers (h.noted answers hn)⟩

theorem ioDone (s : Sfs) : Next s s.ioDone :=
  ⟨fun h n => h (n + 1), fun _ => rfl, fun _ hn => ⟨hn.io_succ, hn.leaked⟩⟩

/-- The write of an indirect block succeeded. -/
theorem idDone (hio : s.io 0 = true) : Next s s.idNoted.ioDone :=
  ⟨fun h n => h (n + 1), fun _ => rfl, fun _ hn => ⟨hn.io_succ, hn.leaked.trans
    (by simp [idNoted, Sfs.ioDone, ← hn.io_zero, hio])⟩⟩

theorem memoryDone (s : Sfs) : Next s s.memoryDone :=
  ⟨id, fun _ => rfl, fun _ hn => ⟨hn.io, hn.leaked⟩⟩

/-- A step that changes the volume only. -/
theorem volume (h : Next s s') (v : Volume) : Next s (s'.withVolume v) :=
  ⟨h.io, h.leaked, fun answers hn => ⟨(h.noted answers hn).io, (h.noted answers hn).leaked⟩⟩

end Next

/-- The users of the file system see `a` now. -/
structure Shows (s : Sfs) (loose : Set ℕ) (a : Fs) (s' : Sfs) : Prop where
  ok : s'.Ok loose
  abs : s'.abs = a
  next : Next s s'
  grows : Volume.Grows s.toVolume s'.toVolume

/-- Nothing has changed that the users of the file system see. -/
abbrev Quiet (s : Sfs) (loose : Set ℕ) (s' : Sfs) : Prop :=
  Shows s loose s.abs s'

theorem Shows.trans {a a' : Fs} {loose' : Set ℕ} (h : Shows s loose a s')
    (h' : Shows s' loose' a' s'') : Shows s loose' a' s'' :=
  ⟨h'.ok, h'.abs, h.next.trans h'.next, h.grows.trans h'.grows⟩

theorem Shows.quiet {a : Fs} (h : Shows s loose a s') (h' : Quiet s' loose s'') :
    Shows s loose a s'' :=
  ⟨h'.ok, h'.abs.trans h.abs, h.next.trans h'.next, h.grows.trans h'.grows⟩

theorem Quiet.refl (h : s.Ok loose) : Quiet s loose s :=
  ⟨h, rfl, .refl s, .refl _⟩

theorem Quiet.trans (h : Quiet s loose s') (h' : Quiet s' loose s'') : Quiet s loose s'' :=
  h.quiet h'

theorem Quiet.ioDone (h : Quiet s loose s') : Quiet s loose s'.ioDone :=
  ⟨h.ok, h.abs, h.next.trans (.ioDone s'), h.grows⟩

/-- The live files are those the users see. -/
theorem Quiet.live {loose' : Set ℕ} (h : Quiet s loose s') (hs : s.Ok loose') :
    s'.Live i ↔ s.Live i := by
  rw [← h.ok.abs_live, h.abs, hs.abs_live]

theorem Quiet.loaded_iff {loose' : Set ℕ} (h : Quiet s loose s') (hs : s.Ok loose') :
    s'.Loaded i ↔ s.Loaded i := by
  rw [← h.ok.refs_ne_zero_iff, ← hs.refs_ne_zero_iff]
  exact not_congr (Eq.congr_left (congrFun (congrArg Fs.refs h.abs) i))

theorem Ok.lt_device {o : Volume.Role} (h : s.Ok loose) (ho : s.Ref o b) : b < s.dBlocks :=
  (h.lt_of_ref ho).trans_le h.device

theorem Ok.exists_loaded (h : s.abs.refs i ≠ 0) : ∃ sv, s.loaded i = some sv := by
  change (s.loaded i).elim 0 SfsVnode.vnRefcount ≠ 0 at h
  cases hl : s.loaded i with
  | none =>
    rw [hl] at h
    exact absurd rfl h
  | some sv => exact ⟨sv, rfl⟩

theorem Ok.clean_of_loaded {sv : SfsVnode} (h : s.Ok loose) (hi : s.loaded i = some sv)
    (hd : sv.svDirty = false) : sv.svI = s.disk i := by
  obtain ⟨hmem, hino⟩ := Volume.loaded_eq_some hi
  rw [← hino]
  exact h.clean sv hmem hd

theorem Ok.refs_ne_zero {sv : SfsVnode} (h : s.Ok loose) (hi : s.loaded i = some sv) :
    s.abs.refs i ≠ 0 := by
  change s.refs i ≠ 0
  rw [Volume.refs_of_loaded hi]
  exact (h.counted sv (Volume.loaded_eq_some hi).1).ne'

end Sfs

open Sfs Volume

variable {ok : Halt → Prop} {s s' : Sfs} {loose : Set ℕ} {b i j fb : ℕ} {sv : SfsVnode}
  {w : DiskBlock} {doalloc : Bool}

/-! ## Vnodes and blocks -/

theorem sfsBused_eq (hb : s.InUse b) : sfsBused b s = .ok (.ok true, s) := by
  unfold sfsBused
  rw [Call.get_bind_apply, if_neg (not_le.mpr hb.1),
    show bitmapIsset s.sfsFreemap b = true from hb.2]
  rfl

theorem unmarkBlock_eq {freemap : Bitmap} (h : bitmapUnmark s.sfsFreemap b = .ok freemap) :
    unmarkBlock b s =
      .ok (.ok (), s.withVolume { s.toVolume with sfsFreemap := freemap }) := by
  unfold unmarkBlock
  rw [Call.get_bind_apply, h]
  rfl

/-- Freeing a block that is marked. -/
theorem sfsBfree_eq (hwf : s.sfsFreemap.WF) (hb : b < s.sfsFreemap.nbits)
    (hm : s.sfsFreemap.Marked b) :
    ∃ freemap, sfsBfree b s = .ok (.ok (), s.withVolume (s.setMap freemap)) ∧
      freemap.nbits = s.sfsFreemap.nbits ∧ freemap.WF ∧
      ∀ k, freemap.Marked k ↔ s.sfsFreemap.Marked k ∧ k ≠ b := by
  obtain ⟨freemap, heq, hn, hwf, hm⟩ := bitmapUnmark_spec hwf hb hm
  refine ⟨freemap, ?_, hn, hwf, hm⟩
  unfold sfsBfree
  rw [Call.bind_of_ok (unmarkBlock_eq heq)]
  rfl

theorem Sfs.Ok.lt_nbits (h : s.Ok loose) (hb : s.InUse b) : b < s.sfsFreemap.nbits := by
  rw [h.nbits]
  exact hb.1.trans_le h.cover

/-! ## `sfs_balloc` -/

/-- DiskBlock `b` has been allocated, and is clear. -/
structure Allocated (s : Sfs) (loose : Set ℕ) (b : ℕ) (s' : Sfs) : Prop where
  quiet : Quiet s (insert b loose) s'
  fresh : b ∉ loose ∪ {x | x ∈ s.leaked}
  zero : s'.disk b = zeroBlock
  leaked : s'.leaked = s.leaked
  vnodes : s'.sfsVnodes = s.sfsVnodes
  disk : ∀ x, s.InUse x → s'.disk x = s.disk x

theorem sfsBalloc_does (h : s.Ok loose) : sfsBalloc.Does ok s fun r s' => match r with
    | .ok b => Allocated s loose b s'
    | .error _ => Quiet s loose s' ∧ s'.sfsVnodes = s.sfsVnodes := by
  unfold sfsBalloc
  rw [Call.does_get_bind]
  have hspec := bitmapAlloc_spec h.wf
  cases hal : bitmapAlloc s.sfsFreemap with
  | error e => exact (hspec.of_error hal).elim
  | ok r =>
    rw [Call.does_lift_bind rfl]
    have hpost := hspec.of_ok hal
    cases r with
    | none => exact ⟨Quiet.refl h, rfl⟩
    | some r =>
      obtain ⟨b, freemap⟩ := r
      obtain ⟨hb, hfree, -, hn, hwf, hm⟩ := hpost
      have hbn : b < s.sbNblocks := by
        by_contra hge
        exact hfree (h.padding b (not_lt.mp hge) (h.nbits ▸ hb))
      have hfresh : b ∉ loose ∪ {x | x ∈ s.leaked} := fun hl =>
        hfree (h.held.marked_loose hl).2
      set s₁ : Sfs := s.withVolume (s.setMap freemap) with hs₁
      have h₁ : s₁.Ok (insert b loose) := by
        unfold Ok
        rw [Set.insert_union]
        exact h.mark hbn hfree hn hm
      rw [Call.does_bind_of_ok (show onVolume _ s = .ok (.ok (), s₁) from rfl),
        if_neg (not_le.mpr hbn)]
      have hwr : sfsClearblock b s₁ = _ := sfsWriteblock_eq (hbn.trans_le h.device)
      split_ifs at hwr with hio <;> rw [Call.does_attempt_bind hwr]
      · have hloose : b ∈ insert b loose ∪ {x | x ∈ s₁.leaked} := Or.inl (Set.mem_insert b loose)
        obtain ⟨hp, habs, href⟩ := h₁.writeLoose (w := zeroBlock) hloose
        refine ⟨⟨hp, habs, (Next.ioDone s).volume _, .of_iff href⟩, hfresh, ?_, rfl, rfl,
          fun x hx => ?_⟩
        · exact Function.update_self _ _ _
        · refine Function.update_of_ne ?_ _ _
          rintro rfl
          exact hfree hx.2
      · -- Clearing the block failed : unmark it again.
        obtain ⟨freemap', heq, hn', -, hm'⟩ := bitmapUnmark_spec hwf (hn ▸ hb)
          ((hm b).mpr (Or.inr rfl))
        have hun : unmarkBlock b s₁.ioDone = _ := unmarkBlock_eq heq
        rw [Call.does_bind_of_ok hun]
        refine ⟨⟨h.remap (hn'.trans hn) fun k => ?_, rfl, (Next.ioDone s).volume _,
          .of_iff fun _ _ => Iff.rfl⟩, rfl⟩
        rw [hm', hm]
        constructor
        · rintro ⟨hk | hk, hne⟩
          · exact hk
          · exact absurd hk hne
        · rintro hk
          refine ⟨Or.inl hk, ?_⟩
          rintro rfl
          exact hfree hk

theorem Allocated.loose_iff (h : Allocated s loose b s') (x : ℕ) :
    x ∈ loose ∪ {x | x ∈ s'.leaked} ↔ x ∈ insert b loose ∪ {x | x ∈ s'.leaked} ∧ x ≠ b := by
  have hfresh := h.fresh
  rw [← h.leaked] at hfresh
  rw [Set.insert_union, Set.mem_insert_iff]
  constructor
  · intro hx
    refine ⟨Or.inr hx, ?_⟩
    rintro rfl
    exact hfresh hx
  · rintro ⟨rfl | hx, hne⟩
    · exact absurd rfl hne
    · exact hx

theorem Allocated.mem (_ : Allocated s loose b s') : b ∈ insert b loose ∪ {x | x ∈ s'.leaked} :=
  Or.inl (Set.mem_insert b loose)

theorem Allocated.loaded (h : Allocated s loose b s') : s'.loaded i = s.loaded i := by
  unfold Volume.loaded
  rw [h.vnodes]

/-! ## `sfs_bmap` -/

theorem handBack_eq (hb : b = 0 ∨ s.InUse b) : handBack b s = .ok (.ok b, s) := by
  unfold handBack
  by_cases h0 : b = 0
  · rw [if_pos h0]
    rfl
  · rw [if_neg h0, Call.bind_of_ok (sfsBused_eq (hb.resolve_left h0))]
    rfl

/-- The block of a file that `sfs_bmap` hands back is in use. -/
theorem Sfs.Ok.inUse_ptr (h : s.Ok loose) (hi : s.Live i) (hp : s.ptr i fb = b) :
    b = 0 ∨ s.InUse b := by
  by_cases h0 : b = 0
  · exact Or.inl h0
  · exact Or.inr (h.held.marked_of (show s.Ref (.data i fb) b from ⟨hi, h0, hp⟩))

/-- The other vnodes are as they were. -/
def SameOthers (i : ℕ) (v v' : Volume) : Prop :=
  ∀ j ≠ i, v'.loaded j = v.loaded j

theorem SameOthers.of_vnodes {v v' : Volume} (h : v'.sfsVnodes = v.sfsVnodes) :
    SameOthers i v v' := by
  intro j _
  unfold Volume.loaded
  rw [h]

theorem SameOthers.trans {v v' v'' : Volume} (h : SameOthers i v v') (h' : SameOthers i v' v'') :
    SameOthers i v v'' :=
  fun j hj => (h' j hj).trans (h j hj)

theorem sameOthers_setInode (v : Volume) (g : DiskBlock → DiskBlock) :
    SameOthers i v (v.setInode i g) :=
  fun _ hj => loaded_updateVnode_ne (fun _ => rfl) hj

/-- What `sfs_bmap` does for block `fb` of file `i`. -/
def BmapPost (s : Sfs) (loose : Set ℕ) (i fb : ℕ) (doalloc : Bool) (r : Except Errno ℕ)
    (s' : Sfs) : Prop :=
  Quiet s loose s' ∧ SameOthers i s.toVolume s'.toVolume ∧ match r with
    | .ok b => s'.ptr i fb = b ∧ (doalloc = true → b ≠ 0)
    | .error _ => s.IoOk → 143 ≤ fb ∨ doalloc = true ∧ s.ptr i fb = 0

theorem bmapDirect_does (h : s.Ok loose) (hi : s.loaded i = some sv) (hfb : fb < 15) :
    (bmapDirect i fb doalloc).Does ok s (BmapPost s loose i fb doalloc) := by
  have hptr : s.ptr i fb = sfiDirect sv.svI fb := by
    rw [ptr, inode_of_loaded hi, filePtr_direct hfb]
  unfold bmapDirect
  rw [Call.does_bind_of_ok (getVnode_eq hi)]
  dsimp only
  split_ifs with hc
  · refine (sfsBalloc_does h).bind
      (fun e s' hq => ⟨hq.1, .of_vnodes hq.2, fun _ => Or.inr ⟨hc.2, ?_⟩⟩) fun b s₁ hal => ?_
    · rw [hptr, hc.1]
    · have hi₁ : s₁.loaded i = some sv := hal.loaded.trans hi
      obtain ⟨hp, habs, hg, hb⟩ :=
        hal.quiet.ok.attachDirect hi₁ hfb hc.1 hal.mem hal.zero hal.loose_iff
      have hq : Quiet s loose (s₁.withVolume (s₁.setInode i (setSfiDirect fb b))) :=
        ⟨hp, habs.trans hal.quiet.abs, hal.quiet.next.volume _, hal.quiet.grows.trans hg⟩
      have hset : setInode i (setSfiDirect fb b) s₁ =
        .ok (.ok (), s₁.withVolume (s₁.setInode i (setSfiDirect fb b))) := rfl
      have hlive := (hq.live h).mpr (live_of_loaded hi)
      exact Call.does_of_eq (handBack_eq (hq.ok.inUse_ptr hlive hb))
        ⟨hq, (SameOthers.of_vnodes hal.vnodes).trans (sameOthers_setInode _ _), hb,
          fun _ => hal.quiet.ok.loose_ne_zero hal.mem⟩
  · refine Call.does_of_eq (handBack_eq (h.inUse_ptr (live_of_loaded hi) hptr)) ?_
    refine ⟨Quiet.refl h, .of_vnodes rfl, hptr, fun hd h0 => hc ⟨h0, hd⟩⟩

/-- A new entry in the indirect block. -/
theorem bmapEnter_does (h : s.Ok loose) (hi : s.Live i) (hid : sfiIndirect (s.inode i) ≠ 0)
    (hj : j < 128) (h0 : getWord (s.disk (sfiIndirect (s.inode i))) j = 0) :
    (bmapEnter (sfiIndirect (s.inode i)) (s.disk (sfiIndirect (s.inode i))) j).Does ok s
      fun r s' => Quiet s loose s' ∧ s'.sfsVnodes = s.sfsVnodes ∧ match r with
        | .ok b => s'.ptr i (15 + j) = b ∧ b ≠ 0
        | .error _ => True := by
  set idblock := sfiIndirect (s.inode i) with hidb
  have href : s.Ref (.indirect i) idblock := ⟨hi, hid, rfl⟩
  refine (sfsBalloc_does h).bind (fun e s' hq => ⟨hq.1, hq.2, trivial⟩) fun b s₁ hal => ?_
  have hinode : s₁.inode i = s.inode i := by
    unfold Volume.inode
    rw [hal.loaded]
    cases hl : s.loaded i with
    | some sv => rfl
    | none => exact hal.disk i (h.held.marked_of (show s.Ref (.inode i) i from ⟨hi, rfl⟩))
  have hdisk : s₁.disk idblock = s.disk idblock := hal.disk _ (h.held.marked_of href)
  have hb0 : b ≠ 0 := hal.quiet.ok.loose_ne_zero hal.mem
  have hlive : s₁.Live i := (hal.quiet.live h).mpr hi
  have hwr : sfsWriteIdblock idblock (setWord (s.disk idblock) j b) s₁ = _ :=
    sfsWriteIdblock_eq ((hal.quiet.ok.lt_of_ref (show s₁.Ref (.indirect i) idblock from
      ⟨hlive, hid, by rw [hinode]⟩)).trans_le hal.quiet.ok.device)
  split_ifs at hwr with hio <;> rw [Call.does_attempt_bind hwr]
  · obtain ⟨hp, habs, hg, hb⟩ := hal.quiet.ok.enter hlive (by rw [hinode]; exact hid) hj
      (by rw [hinode, hdisk]; exact h0) hal.mem hal.zero hal.loose_iff rfl
    rw [hinode, hdisk] at hp habs hg hb
    have hq : Quiet s loose (s₁.idNoted.ioDone.withVolume
        (s₁.setDisk idblock (setWord (s.disk idblock) j b))) :=
      ⟨hp, habs.trans hal.quiet.abs, (hal.quiet.next.trans (.idDone hio)).volume _,
        hal.quiet.grows.trans hg⟩
    exact Call.does_of_eq (handBack_eq (hq.ok.inUse_ptr ((hq.live h).mpr hi) hb))
      ⟨hq, hal.vnodes, hb, hb0⟩
  · -- The block is marked, and nothing will refer to it.
    refine ⟨⟨?_, hal.quiet.abs, ⟨fun hs => ?_, fun hs => ?_, fun answers hs => ?_⟩,
      hal.quiet.grows⟩, hal.vnodes, trivial⟩
    · have hset : loose ∪ {x | x ∈ b :: s₁.leaked} = insert b loose ∪ {x | x ∈ s₁.leaked} := by
        ext x
        simp only [Set.mem_union, Set.mem_ofPred_eq, List.mem_cons, Set.mem_insert_iff]
        rw [or_left_comm, or_assoc]
      change s₁.toVolume.Phys (loose ∪ {x | x ∈ b :: s₁.leaked})
      rw [hset]
      exact hal.quiet.ok
    · exact absurd (hal.quiet.next.io hs 0) hio
    · exact absurd (hal.quiet.next.io hs 0) hio
    · have hn := hal.quiet.next.noted answers hs
      refine ⟨hn.io_succ, ?_⟩
      rw [hn.io_zero] at hio
      simp [idNoted, Sfs.ioDone, hio]

theorem bmapIndirect_does (h : s.Ok loose) (hi : s.loaded i = some sv) (hj : j < 128) :
    (bmapIndirect i j doalloc).Does ok s (BmapPost s loose i (15 + j) doalloc) := by
  have hlive := live_of_loaded hi
  have hinode := inode_of_loaded hi
  unfold bmapIndirect
  rw [Call.does_bind_of_ok (getVnode_eq hi)]
  dsimp only
  split_ifs with hc hz
  · refine ⟨Quiet.refl h, .of_vnodes rfl, ?_, fun hd => ?_⟩
    · exact filePtr_no_indirect (by omega) (hinode ▸ hc.1)
    · simp [hd] at hc
  · have hd : doalloc = true := by simpa [hz] using hc
    have hp0 : s.ptr i (15 + j) = 0 := filePtr_no_indirect (by omega) (hinode ▸ hz)
    refine (sfsBalloc_does h).bind
      (fun e s' hq => ⟨hq.1, .of_vnodes hq.2, fun _ => Or.inr ⟨hd, hp0⟩⟩) fun b s₁ hal => ?_
    have hi₁ : s₁.loaded i = some sv := hal.loaded.trans hi
    obtain ⟨hp, habs, hg⟩ := hal.quiet.ok.attachIndirect hi₁ hz hal.mem hal.zero hal.loose_iff
    set s₂ : Sfs := s₁.withVolume (s₁.setInode i (setSfiIndirect b)) with hs₂
    have hq : Quiet s loose s₂ :=
      ⟨hp, habs.trans hal.quiet.abs, hal.quiet.next.volume _, hal.quiet.grows.trans hg⟩
    have hb32 : b < 2 ^ 32 :=
      (hal.quiet.ok.lt_of_loose hal.mem).trans hal.quiet.ok.nblocks_lt
    have hb : sfiIndirect (s₂.inode i) = b := by
      have : s₂.inode i = setSfiIndirect b sv.svI := inode_setInode hi₁
      rw [this, sfiIndirect_setSfiIndirect, Nat.mod_eq_of_lt hb32]
    have hword : getWord (s₂.disk (sfiIndirect (s₂.inode i))) j = 0 := by
      rw [hb]
      exact (congrArg (getWord · j) hal.zero).trans (getWord_zero j)
    have hent : Call.Does ok _ s₂ _ := bmapEnter_does hq.ok ((hq.live h).mpr hlive)
      (hb.trans_ne (hal.quiet.ok.loose_ne_zero hal.mem)) hj hword
    rw [hb, show s₂.disk b = zeroBlock from hal.zero] at hent
    have hoth : SameOthers i s.toVolume s₂.toVolume :=
      (SameOthers.of_vnodes hal.vnodes).trans (sameOthers_setInode _ _)
    refine hent.mono fun r s' hr => ⟨hq.trans hr.1, hoth.trans (.of_vnodes hr.2.1), ?_⟩
    cases r with
    | ok b' => exact ⟨hr.2.2.1, fun _ => hr.2.2.2⟩
    | error e => exact fun _ => Or.inr ⟨hd, hp0⟩
  · have href : s.Ref (.indirect i) (sfiIndirect sv.svI) := ⟨hlive, hz, by rw [hinode]⟩
    have hq := (Quiet.refl h).ioDone
    refine does_readblock (h.lt_device href)
      (fun hio => ⟨hq, .of_vnodes rfl, fun hs => absurd (hs 0) hio⟩) fun _ => ?_
    have hptr : s.ioDone.ptr i (15 + j) = getWord (s.disk (sfiIndirect sv.svI)) j := by
      change filePtr s.disk (s.inode i) (15 + j) = _
      rw [hinode, filePtr_entry hj hz]
    split_ifs with hc'
    · rw [← hinode] at hz hc' ⊢
      refine (bmapEnter_does (s := s.ioDone) hq.ok hlive hz hj hc'.1).mono
        fun r s' hr => ⟨hq.trans hr.1, .of_vnodes hr.2.1, ?_⟩
      cases r with
      | ok b' => exact ⟨hr.2.2.1, fun _ => hr.2.2.2⟩
      | error e => exact fun _ => Or.inr ⟨hc'.2, (filePtr_entry hj hz).trans hc'.1⟩
    · refine Call.does_of_eq (handBack_eq (hq.ok.inUse_ptr hlive hptr)) ?_
      exact ⟨hq, .of_vnodes rfl, hptr, fun hd h0 => hc' ⟨h0, hd⟩⟩

theorem sfsBmap_does (h : s.Ok loose) (hi : s.loaded i = some sv) :
    (sfsBmap i fb doalloc).Does ok s (BmapPost s loose i fb doalloc) := by
  unfold sfsBmap
  split_ifs with h1 h2
  · exact bmapDirect_does h hi h1
  · exact ⟨Quiet.refl h, .of_vnodes rfl, fun _ => Or.inl (by omega)⟩
  · have hj : (fb - 15) % 128 = fb - 15 := by omega
    have hfb : fb = 15 + (fb - 15) := by omega
    rw [hj, hfb, Nat.add_sub_cancel_left]
    exact bmapIndirect_does h hi (by omega)

end OS161
