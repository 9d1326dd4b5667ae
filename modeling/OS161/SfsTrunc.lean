import OS161.SfsBmap

/-!
# Truncating a file

`sfs_itrunc` frees the direct blocks one by one, and then the entries of the indirect block in
a buffer, before it writes the buffer back or frees the indirect block. When that write fails,
the indirect block on disk still has the numbers of blocks that are free now (`Dangling`). In
every other case the file keeps its type and its links, and the volume its invariant
(`sfsItrunc_does`).
-/

namespace OS161

open Sfs Volume

variable {ok : Halt → Prop} {s s' s'' : Sfs} {loose : Set ℕ} {b i j : ℕ} {sv : SfsVnode}
  {blocklen : ℕ}

/-- File `i` has changed, but for its type and links. -/
structure Trimmed (i : ℕ) (s : Sfs) (loose : Set ℕ) (s' : Sfs) : Prop where
  ok : s'.Ok loose
  next : Next s s'
  shrinks : Shrinks i s.toVolume s'.toVolume
  abs : ∃ f, s'.abs = s.abs.setFile i f ∧ f.type = (s.abs.file i).type ∧
    f.links = (s.abs.file i).links

namespace Trimmed

theorem refl (h : s.Ok loose) : Trimmed i s loose s :=
  ⟨h, .refl s, .refl _, s.abs.file i, (s.abs.setFile_self i).symm, rfl, rfl⟩

theorem trans (h : Trimmed i s loose s') (h' : Trimmed i s' loose s'') : Trimmed i s loose s'' := by
  obtain ⟨f, habs, ht, hl⟩ := h.abs
  obtain ⟨f', habs', ht', hl'⟩ := h'.abs
  refine ⟨h'.ok, h.next.trans h'.next, h.shrinks.trans h'.shrinks, f', ?_, ?_, ?_⟩
  · rw [habs', habs, Fs.setFile_setFile]
  · rw [ht', habs, Fs.setFile_file, ht]
  · rw [hl', habs, Fs.setFile_file, hl]

theorem ioDone (h : Trimmed i s loose s') : Trimmed i s loose s'.ioDone :=
  ⟨h.ok, h.next.trans (.ioDone s'), h.shrinks, h.abs⟩

theorem exists_loaded (h : Trimmed i s loose s') (hs : s.Ok loose) (hi : s.loaded i = some sv) :
    ∃ sv', s'.loaded i = some sv' := by
  obtain ⟨f, habs, -⟩ := h.abs
  refine Ok.exists_loaded ?_
  rw [habs]
  exact hs.refs_ne_zero hi

end Trimmed

/-- The file has no blocks. -/
def Volume.Hollow (v : Volume) (i : ℕ) : Prop :=
  sfiIndirect (v.inode i) = 0 ∧ ∀ k < 15, sfiDirect (v.inode i) k = 0

/-- Some block is referred to and free. -/
def Volume.Dangling (v : Volume) : Prop :=
  ∃ o b, v.Ref o b ∧ ¬v.InUse b

/-- An indirect block from which blocks were freed could not be written. -/
structure Torn (s s' : Sfs) : Prop where
  noted : ∀ answers, s.Noted answers → ∃ n ∈ s'.idcalls, answers n = false
  dangling : s'.Dangling

theorem Torn.of_next (h : Torn s' s'') (hn : Next s s') : Torn s s'' :=
  ⟨fun answers ha => h.noted answers (hn.noted answers ha), h.dangling⟩

/-- Blocks are freed, and their numbers taken out of the inode. -/
def Sfs.cutInode (s : Sfs) (i : ℕ) (g : DiskBlock → DiskBlock) (freemap : Bitmap) : Sfs :=
  s.withVolume ((s.setInode i g).setMap freemap)

theorem inode_cutInode {g : DiskBlock → DiskBlock} {freemap : Bitmap}
    (hi : s.loaded i = some sv) : (s.cutInode i g freemap).inode i = g sv.svI :=
  inode_setInode hi

theorem Trimmed.of_cutInode {g : DiskBlock → DiskBlock} {freemap : Bitmap}
    (hi : s.loaded i = some sv) (hi1 : i ≠ 1) (hok : (s.cutInode i g freemap).Ok loose)
    (hshr : Shrinks i s.toVolume (s.setInode i g)) (ht : sfiType (g sv.svI) = sfiType sv.svI)
    (hl : sfiLinkcount (g sv.svI) = sfiLinkcount sv.svI) :
    Trimmed i s loose (s.cutInode i g freemap) := by
  refine ⟨hok, (Next.refl s).volume _, hshr.setMap _, _,
    abs_setInode hi fun h1 => absurd h1 hi1, ?_, ?_⟩ <;> rw [abs_file_of_loaded hi]
  · exact ht
  · exact hl

/-- The blocks of the file with inode `d` are marked, and each has one place in the file. -/
structure Volume.HoldsFile (v : Volume) (d : DiskBlock) : Prop where
  wf : v.sfsFreemap.WF
  marked : ∀ b, Touches v.disk d b → b < v.sfsFreemap.nbits ∧ v.sfsFreemap.Marked b
  device : sfiIndirect d ≠ 0 → sfiIndirect d < v.dBlocks
  inj : ∀ k k', filePtr v.disk d k ≠ 0 → filePtr v.disk d k = filePtr v.disk d k' → k = k'
  ne_indirect : ∀ k, filePtr v.disk d k ≠ 0 → filePtr v.disk d k ≠ sfiIndirect d

theorem Sfs.Ok.holdsFile (h : s.Ok loose) (hi : s.Live i) : s.HoldsFile (s.inode i) where
  wf := h.wf
  marked b hb := by
    obtain ⟨o, ho, -⟩ := ref_of_touches hi hb
    have hu := h.held.marked_of ho
    exact ⟨h.lt_nbits hu, hu.2⟩
  device h0 := h.lt_device (show s.Ref (.indirect i) _ from ⟨hi, h0, rfl⟩)
  inj k k' h0 he := by
    have hR : s.Ref (.data i k) (filePtr s.disk (s.inode i) k) := ⟨hi, h0, rfl⟩
    have hR' : s.Ref (.data i k') (filePtr s.disk (s.inode i) k) := ⟨hi, h0, he.symm⟩
    have := h.held.inj hR hR'
    rw [Role.data.injEq] at this
    exact this.2
  ne_indirect k h0 he := by
    have hR : s.Ref (.data i k) (filePtr s.disk (s.inode i) k) := ⟨hi, h0, rfl⟩
    have hR' : s.Ref (.indirect i) (filePtr s.disk (s.inode i) k) := ⟨hi, h0, he.symm⟩
    cases h.held.inj hR hR'

/-! ## The direct blocks -/

theorem itruncDirect_eq (blocklen : ℕ) (hi : s.loaded i = some sv) (hh : s.HoldsFile sv.svI)
    (hj : j < 15) :
    (blocklen ≤ j → sfiDirect sv.svI j = 0) ∧ itruncDirect i blocklen j s = .ok (.ok (), s) ∨
    (blocklen ≤ j ∧ sfiDirect sv.svI j ≠ 0) ∧ ∃ freemap, itruncDirect i blocklen j s =
        .ok (.ok (), s.cutInode i (setSfiDirect j 0) freemap) ∧
      freemap.nbits = s.sfsFreemap.nbits ∧ freemap.WF ∧
      ∀ x, freemap.Marked x ↔ s.sfsFreemap.Marked x ∧ x ≠ sfiDirect sv.svI j := by
  unfold itruncDirect
  rw [Call.bind_of_ok (getVnode_eq hi)]
  split_ifs with hc
  · obtain ⟨hlt, hm⟩ := hh.marked _ ⟨hc.2, Or.inr ⟨j, filePtr_direct hj⟩⟩
    obtain ⟨freemap, heq, hpost⟩ := sfsBfree_eq hh.wf hlt hm
    refine Or.inr ⟨hc, freemap, ?_, hpost⟩
    rw [Call.bind_of_ok heq]
    rfl
  · exact Or.inl ⟨fun hb => not_not.mp fun h0 => hc ⟨hb, h0⟩, rfl⟩

theorem itruncDirect_does (h : s.Ok loose) (hi : s.loaded i = some sv) (hi1 : i ≠ 1) (hj : j < 15) :
    (itruncDirect i blocklen j).Does ok s fun r s' => r = .ok () ∧ Trimmed i s loose s' ∧
      sfiIndirect (s'.inode i) = sfiIndirect (s.inode i) ∧
      (blocklen ≤ j → sfiDirect (s'.inode i) j = 0) ∧
      ∀ k < 15, sfiDirect (s.inode i) k = 0 → sfiDirect (s'.inode i) k = 0 := by
  have hinode := inode_of_loaded hi
  have hlive := live_of_loaded hi
  rcases itruncDirect_eq blocklen hi (hinode ▸ h.holdsFile hlive) hj with
    ⟨hb, heq⟩ | ⟨hc, freemap, heq, hn, -, hm⟩
  · refine Call.does_of_eq heq ⟨rfl, .refl h, rfl, fun hbl => ?_, fun _ _ hk => hk⟩
    rw [hinode, hb hbl]
  · have href : s.Ref (.data i j) (sfiDirect sv.svI j) := by
      refine ⟨hlive, hc.2, ?_⟩
      rw [ptr, hinode, filePtr_direct hj]
    have hnot := h.held.disj href
    obtain ⟨hdet, hshr⟩ := h.detachDirect hi hi1 hj rfl hc.2
    have hphys : (s.cutInode i (setSfiDirect j 0) freemap).Ok loose := by
      refine hdet.unmark (D := {sfiDirect sv.svI j}) ?_ hn hm fun k => ?_
      · exact Set.singleton_subset_iff.mpr (Set.mem_insert _ _)
      · refine ⟨fun hk => ⟨Or.inr hk, ?_⟩, fun hk => hk.1.resolve_left hk.2⟩
        rintro rfl
        exact hnot hk
    refine Call.does_of_eq heq
      ⟨rfl, .of_cutInode hi hi1 hphys hshr (by simp) (by simp), ?_, fun _ => ?_, fun k _ hk => ?_⟩
    · rw [inode_cutInode hi, hinode, sfiIndirect_setSfiDirect _ _ _ hj]
    · rw [inode_cutInode hi, sfiDirect_setSfiDirect, if_pos rfl, Nat.zero_mod]
    · rw [inode_cutInode hi, sfiDirect_setSfiDirect, ← hinode, hk]
      exact ite_self _

/-- The direct blocks from `blocklen` on are gone, but for those in `l`. -/
structure TrimmedTo (blocklen i : ℕ) (s : Sfs) (loose : Set ℕ) (l : List ℕ) (s' : Sfs) : Prop where
  trimmed : Trimmed i s loose s'
  lt : ∀ k ∈ l, k < 15
  indirect : sfiIndirect (s'.inode i) = sfiIndirect (s.inode i)
  direct : ∀ k < 15, k ∉ l → blocklen ≤ k → sfiDirect (s'.inode i) k = 0

/-- The loop over the direct blocks. -/
theorem itruncDirects_does (h : s.Ok loose) (hi : s.loaded i = some sv) (hi1 : i ≠ 1) :
    (Call.forEach (itruncDirect i blocklen) (List.range 15)).Does ok s fun r s' => r = .ok () ∧
      TrimmedTo blocklen i s loose [] s' := by
  refine Call.Does.forEach (I := TrimmedTo blocklen i s loose) ?_ (fun _ ht => ⟨rfl, ht⟩)
    (List.range 15) s ?_
  · intro k l s' ht
    obtain ⟨sv', hi'⟩ := ht.trimmed.exists_loaded h hi
    refine (itruncDirect_does ht.trimmed.ok hi' hi1 (ht.lt k List.mem_cons_self)).mono ?_
    rintro r s'' ⟨rfl, ht', hind, hk, hkeep⟩
    refine ⟨ht.trimmed.trans ht', fun x hx => ht.lt x (List.mem_cons_of_mem _ hx),
      hind.trans ht.indirect, fun x hx hxl hb => ?_⟩
    by_cases hxk : x = k
    · subst hxk
      exact hk hb
    · refine hkeep x hx (ht.direct x hx ?_ hb)
      rw [List.mem_cons]
      rintro (h' | h')
      · exact hxk h'
      · exact hxl h'
  · refine ⟨.refl h, fun k hk => List.mem_range.mp hk, rfl, fun k hk hkl => ?_⟩
    exact absurd (List.mem_range.mpr hk) hkl

/-! ## The entries of the indirect block -/

/-- Entry `k` of the indirect block with words `w` is freed. -/
def Freed (blocklen : ℕ) (w : DiskBlock) (k : ℕ) : Prop :=
  blocklen < 15 + k ∧ getWord w k ≠ 0

instance (blocklen : ℕ) (w : DiskBlock) (k : ℕ) : Decidable (Freed blocklen w k) :=
  inferInstanceAs (Decidable (_ ∧ _))

/-- The entries in `l` have been looked at, from the buffer `w` and the state `s` on. -/
structure EntriesFreed (blocklen : ℕ) (l : List ℕ) (w : DiskBlock) (s : Sfs) (w' : DiskBlock)
    (s' : Sfs) :
    Prop where
  word : ∀ k, getWord w' k = if k ∈ l ∧ blocklen < 15 + k then 0 else getWord w k
  none : (∀ k ∈ l, ¬Freed blocklen w k) → s' = s
  some : (∃ k ∈ l, Freed blocklen w k) → s' = s.withVolume (s.setMap s'.sfsFreemap)
  nbits : s'.sfsFreemap.nbits = s.sfsFreemap.nbits
  wf : s'.sfsFreemap.WF
  marked : ∀ x, s'.sfsFreemap.Marked x ↔
    s.sfsFreemap.Marked x ∧ ¬∃ k ∈ l, Freed blocklen w k ∧ getWord w k = x

theorem itruncEntries_eq (blocklen : ℕ) : ∀ (l : List ℕ) (w : DiskBlock) (nz d : Bool) (s : Sfs),
    l.Nodup → s.sfsFreemap.WF → (∀ k ∈ l, Freed blocklen w k →
      getWord w k < s.sfsFreemap.nbits ∧ s.sfsFreemap.Marked (getWord w k)) →
    (∀ k ∈ l, ∀ k' ∈ l, getWord w k ≠ 0 → getWord w k = getWord w k' → k = k') →
    ∃ w' s', itruncEntries blocklen l (w, nz, d) s = .ok (.ok (w', nz || l.any (getWord w' · ≠ 0),
      d || l.any (Freed blocklen w ·)), s') ∧ EntriesFreed blocklen l w s w' s'
  | [], w, nz, d, s, _, hwf, _, _ => by
    refine ⟨w, s, ?_, by simp, fun _ => rfl, by simp, rfl, hwf, by simp⟩
    rw [List.any_nil, List.any_nil, Bool.or_false, Bool.or_false]
    rfl
  | k :: l, w, nz, d, s, hl, hwf, hm, hinj => by
    obtain ⟨hk, hl⟩ := List.nodup_cons.mp hl
    have hcons : itruncEntries blocklen (k :: l) (w, nz, d) =
      (itruncEntry blocklen k (w, nz, d) >>= itruncEntries blocklen l) := rfl
    by_cases hc : Freed blocklen w k
    · -- The block is freed, and the entry is clear for the rest of the loop.
      obtain ⟨hlt, hmk⟩ := hm k List.mem_cons_self hc
      obtain ⟨freemap, heq, hn, hwf₁, hm₁⟩ := sfsBfree_eq hwf hlt hmk
      set s₁ := s.withVolume (s.setMap freemap) with hs₁
      have hword : ∀ x ∈ l, getWord (setWord w k 0) x = getWord w x := fun x hx =>
        getWord_setWord_ne (by rintro rfl; exact hk hx)
      have hfreed : ∀ x ∈ l, Freed blocklen (setWord w k 0) x ↔ Freed blocklen w x :=
        fun x hx => by rw [Freed, Freed, hword x hx]
      have hne : ∀ x ∈ l, getWord w x ≠ getWord w k := fun x hx he => hk
        (hinj k List.mem_cons_self x (List.mem_cons_of_mem _ hx) hc.2 he.symm ▸ hx)
      obtain ⟨w', s', hrun, hpost⟩ := itruncEntries_eq blocklen l (setWord w k 0) nz true s₁ hl hwf₁
        (fun x hx hf => by
          obtain ⟨h1, h2⟩ := hm x (List.mem_cons_of_mem _ hx) ((hfreed x hx).mp hf)
          rw [hword x hx]
          exact ⟨hn ▸ h1, (hm₁ _).mpr ⟨h2, hne x hx⟩⟩)
        (fun x hx y hy h0 he => by
          rw [hword x hx] at h0 he
          rw [hword y hy] at he
          exact hinj x (List.mem_cons_of_mem _ hx) y (List.mem_cons_of_mem _ hy) h0 he)
      have hw'k : getWord w' k = 0 := by
        rw [hpost.word, if_neg (fun h => hk h.1), getWord_setWord_self, Nat.zero_mod]
      have hall : s' = s.withVolume (s.setMap s'.sfsFreemap) := by
        by_cases hex : ∃ x ∈ l, Freed blocklen (setWord w k 0) x
        · exact hpost.some hex
        · rw [hpost.none fun x hx hf => hex ⟨x, hx, hf⟩]
          rfl
      refine ⟨w', s', ?_, fun x => ?_, fun hno => ?_, fun _ => hall, hpost.nbits.trans hn,
        hpost.wf, fun x => ?_⟩
      · have hstep : itruncEntry blocklen k (w, nz, d) s =
            .ok (.ok (setWord w k 0, nz, true), s₁) := by
          unfold itruncEntry
          rw [if_pos (show blocklen < 15 + k ∧ getWord w k ≠ 0 from hc), Call.bind_of_ok heq]
          rfl
        rw [hcons, Call.bind_of_ok hstep, hrun]
        simp [hw'k, hc]
      · rw [hpost.word]
        by_cases hx : x = k
        · subst hx
          rw [if_neg (fun h => hk h.1), getWord_setWord_self, if_pos ⟨List.mem_cons_self, hc.1⟩,
            Nat.zero_mod]
        · rw [getWord_setWord_ne hx]
          simp [hx]
      · exact absurd hc (hno k List.mem_cons_self)
      · rw [hpost.marked, show s₁.sfsFreemap.Marked x ↔ _ from hm₁ x]
        constructor
        · rintro ⟨⟨h1, h2⟩, h3⟩
          refine ⟨h1, ?_⟩
          rintro ⟨y, hy, hf, rfl⟩
          rcases List.mem_cons.mp hy with rfl | hy
          · exact h2 rfl
          · exact h3 ⟨y, hy, (hfreed y hy).mpr hf, hword y hy⟩
        · rintro ⟨h1, h2⟩
          refine ⟨⟨h1, ?_⟩, ?_⟩
          · rintro rfl
            exact h2 ⟨k, List.mem_cons_self, hc, rfl⟩
          · rintro ⟨y, hy, hf, he⟩
            exact h2 ⟨y, List.mem_cons_of_mem _ hy, (hfreed y hy).mp hf, (hword y hy).symm.trans he⟩
    · have hstep : itruncEntry blocklen k (w, nz, d) s =
          .ok (.ok (w, nz || getWord w k ≠ 0, d), s) := by
        unfold itruncEntry
        rw [if_neg (show ¬(blocklen < 15 + k ∧ getWord w k ≠ 0) from hc)]
        rfl
      obtain ⟨w', s', hrun, hpost⟩ := itruncEntries_eq blocklen l w
        (nz || getWord w k ≠ 0) d s hl hwf
        (fun x hx => hm x (List.mem_cons_of_mem _ hx))
        fun x hx y hy => hinj x (List.mem_cons_of_mem _ hx) y (List.mem_cons_of_mem _ hy)
      have hw'k : getWord w' k = getWord w k := by
        rw [hpost.word, if_neg fun h => hk h.1]
      refine ⟨w', s', ?_, fun x => ?_, fun hno => ?_, fun hex => ?_, hpost.nbits, hpost.wf,
        fun x => ?_⟩
      · rw [hcons, Call.bind_of_ok hstep, hrun]
        simp [hw'k, hc, Bool.or_assoc]
      · rw [hpost.word]
        by_cases hx : x = k
        · subst hx
          rw [if_neg fun h => hk h.1]
          split_ifs with hb
          · by_contra h0
            exact hc ⟨hb.2, h0⟩
          · rfl
        · simp [hx]
      · exact hpost.none fun x hx => hno x (List.mem_cons_of_mem _ hx)
      · refine hpost.some ?_
        obtain ⟨x, hx, hf⟩ := hex
        rcases List.mem_cons.mp hx with rfl | hx
        · exact absurd hf hc
        · exact ⟨x, hx, hf⟩
      · rw [hpost.marked]
        simp [hc]

/-! ## The indirect block -/

/-- The entries of the indirect block are blocks of the file. -/
theorem ref_of_entry (hi : s.Live i) (hb : sfiIndirect (s.inode i) = b) (hb0 : b ≠ 0)
    (hj : j < 128) (h0 : getWord (s.disk b) j ≠ 0) :
    s.Ref (.data i (15 + j)) (getWord (s.disk b) j) := by
  refine ⟨hi, h0, ?_⟩
  rw [ptr, filePtr_entry hj (hb.trans_ne hb0), hb]

/-- The loop over the entries of the indirect block of a file. -/
theorem itruncEntries_file (blocklen : ℕ) {d : DiskBlock} (h : s.HoldsFile d)
    (hb : sfiIndirect d = b) (hb0 : b ≠ 0) :
    ∃ w' s', itruncEntries blocklen (List.range 128) (s.disk b, false, false) s =
      .ok (.ok (w', (List.range 128).any (getWord w' · ≠ 0),
        (List.range 128).any (Freed blocklen (s.disk b) ·)), s') ∧
      EntriesFreed blocklen (List.range 128) (s.disk b) s w' s' := by
  subst hb
  have hptr : ∀ k ∈ List.range 128, filePtr s.disk d (15 + k) =
      getWord (s.disk (sfiIndirect d)) k :=
    fun k hk => filePtr_entry (List.mem_range.mp hk) hb0
  have := itruncEntries_eq blocklen (List.range 128) (s.disk (sfiIndirect d)) false false s
    List.nodup_range h.wf
    (fun k hk hf => h.marked _ ⟨hf.2, Or.inr ⟨15 + k, hptr k hk⟩⟩)
    (fun k hk k' hk' h0 he => by
      have := h.inj (15 + k) (15 + k') (by rwa [hptr k hk]) (by rw [hptr k hk, hptr k' hk', he])
      omega)
  simpa only [Bool.false_or] using this

/-- The numbers of the blocks that were freed. -/
theorem EntriesFreed.freed_iff {w w' : DiskBlock} {x : ℕ}
    (h : EntriesFreed blocklen (List.range 128) w s w' s') :
    (∃ k ∈ List.range 128, Freed blocklen w k ∧ getWord w k = x) ↔
      x ≠ 0 ∧ ∃ k < 128, getWord w k = x ∧ getWord w' k = 0 := by
  constructor
  · rintro ⟨k, hk, hf, rfl⟩
    refine ⟨hf.2, k, List.mem_range.mp hk, rfl, ?_⟩
    rw [h.word, if_pos ⟨hk, hf.1⟩]
  · rintro ⟨h0, k, hk, rfl, hw⟩
    rw [h.word] at hw
    split_ifs at hw with hc
    · exact ⟨k, hc.1, ⟨hc.2, h0⟩, rfl⟩
    · exact absurd hw h0

/-- Only the freemap has changed. -/
theorem EntriesFreed.setMap {l : List ℕ} {w w' : DiskBlock} (h : EntriesFreed blocklen l w s w' s')
    (freemap : Bitmap) :
    s'.withVolume (s'.setMap freemap) = s.withVolume (s.setMap freemap) := by
  by_cases hf : ∃ k ∈ l, Freed blocklen w k
  · rw [h.some hf]
    rfl
  · rw [h.none fun k hk hk' => hf ⟨k, hk, hk'⟩]

section Indirect

variable {w' : DiskBlock}

/-- The indirect block is not one of its entries, and is freed, too. -/
theorem freeIndirect_eq {d : DiskBlock} (i : ℕ) (hh : s.HoldsFile d) (hb0 : sfiIndirect d ≠ 0)
    (he : EntriesFreed blocklen (List.range 128) (s.disk (sfiIndirect d)) s w' s') :
    ∃ freemap, (sfsBfree (sfiIndirect d) >>= fun _ => setInode i (setSfiIndirect 0)) s' =
        .ok (.ok (), s.cutInode i (setSfiIndirect 0) freemap) ∧
      freemap.nbits = s.sfsFreemap.nbits ∧ freemap.WF ∧
      ∀ x, freemap.Marked x ↔ (s.sfsFreemap.Marked x ∧ ¬∃ k ∈ List.range 128,
        Freed blocklen (s.disk (sfiIndirect d)) k ∧ getWord (s.disk (sfiIndirect d)) k = x) ∧
        x ≠ sfiIndirect d := by
  obtain ⟨hlt, hm⟩ := hh.marked _ ⟨hb0, Or.inl rfl⟩
  have hmb : s'.sfsFreemap.Marked (sfiIndirect d) := by
    rw [he.marked]
    refine ⟨hm, ?_⟩
    rintro ⟨k, hk, -, hw⟩
    have hp := (filePtr_entry (List.mem_range.mp hk) hb0).trans hw
    exact hh.ne_indirect _ (hp.trans_ne hb0) hp
  obtain ⟨freemap, heq, hn, hwf, hm'⟩ := sfsBfree_eq he.wf (he.nbits ▸ hlt) hmb
  refine ⟨freemap, ?_, hn.trans he.nbits, hwf, fun x => by rw [hm', he.marked]⟩
  rw [Call.bind_of_ok heq, he.setMap freemap]
  rfl

/-- All entries are clear : the indirect block is freed, too. -/
theorem freeIndirect_does (h : s.Ok loose) (hi : s.loaded i = some sv) (hi1 : i ≠ 1)
    (hb : sfiIndirect sv.svI = b) (hb0 : b ≠ 0)
    (he : EntriesFreed blocklen (List.range 128) (s.disk b) s w' s')
    (hz : ∀ k < 128, getWord w' k = 0) :
    (sfsBfree b >>= fun _ => setInode i (setSfiIndirect 0)).Does ok s' fun r s'' => r = .ok () ∧
      Trimmed i s loose s'' ∧ sfiIndirect (s''.inode i) = 0 ∧
      ∀ k < 15, sfiDirect (s''.inode i) k = sfiDirect (s.inode i) k := by
  subst hb
  have hlive := live_of_loaded hi
  have hinode := inode_of_loaded hi
  have hb' : sfiIndirect (s.inode i) = sfiIndirect sv.svI := by rw [hinode]
  obtain ⟨freemap, heq, hn, -, hm⟩ := freeIndirect_eq i (hinode ▸ h.holdsFile hlive) hb0 he
  obtain ⟨hdet, hshr⟩ := h.detachIndirect hi hi1 rfl hb0
  have hfreed : ∀ x, (∃ k < 128, getWord (s.disk (sfiIndirect sv.svI)) k = x ∧ getWord w' k = 0) ↔
      ∃ k < 128, getWord (s.disk (sfiIndirect sv.svI)) k = x := fun x =>
    exists_congr fun k => and_congr_right fun hk => and_iff_left (hz k hk)
  have hphys : (s.cutInode i (setSfiIndirect 0) freemap).Ok loose := by
    refine hdet.unmark Set.subset_union_left hn (fun k => ?_) fun k => ?_
    · rw [hm, he.freed_iff, hfreed]
      simp only [Set.mem_ofPred_eq, not_or]
      rw [and_assoc]
      exact and_congr_right fun _ => and_comm
    · refine ⟨fun hk => ⟨Or.inr hk, ?_⟩, fun hk => hk.1.resolve_left hk.2⟩
      rintro (rfl | ⟨h0, j, hj, rfl⟩)
      · exact h.held.disj (show s.Ref (.indirect i) _ from ⟨hlive, hb0, hb'⟩) hk
      · exact h.held.disj (ref_of_entry hlive hb' hb0 hj h0) hk
  refine Call.does_of_eq heq
    ⟨rfl, .of_cutInode hi hi1 hphys hshr (by simp) (by simp), ?_, fun k hk => ?_⟩
  · rw [inode_cutInode hi, sfiIndirect_setSfiIndirect, Nat.zero_mod]
  · rw [inode_cutInode hi, hinode, sfiDirect_setSfiIndirect _ _ _ hk]

/-- Some entries were cleared, and the indirect block is written. -/
theorem writeEntries_does (h : s.Ok loose) (hi : s.loaded i = some sv) (hi1 : i ≠ 1)
    (hb : sfiIndirect sv.svI = b) (hb0 : b ≠ 0)
    (he : EntriesFreed blocklen (List.range 128) (s.disk b) s w' s')
    (hf : ∃ k ∈ List.range 128, Freed blocklen (s.disk b) k) :
    (sfsWriteIdblock b w').Does ok s' fun r s'' => match r with
      | .ok _ => Trimmed i s loose s'' ∧ s''.inode i = s.inode i
      | .error _ => ¬s.IoOk ∧ Torn s s'' := by
  have hlive := live_of_loaded hi
  have hinode := inode_of_loaded hi
  have hb' : sfiIndirect (s.inode i) = b := by rw [hinode, hb]
  have hind : s.Ref (.indirect i) b := ⟨hlive, hb0, hb'⟩
  obtain ⟨freemap, hfm⟩ : ∃ freemap, s'.sfsFreemap = freemap := ⟨_, rfl⟩
  have hs' := he.some hf
  have hn := he.nbits
  have hm := he.marked
  rw [hfm] at hs' hn hm
  have hwr : sfsWriteIdblock b w' s' = _ := sfsWriteIdblock_eq (by
    rw [hs']
    exact h.lt_device hind)
  split_ifs at hwr with hio
  · refine Call.does_of_eq hwr ?_
    have hst : s'.idNoted.ioDone.withVolume (s'.setDisk b w') =
        s.idNoted.ioDone.withVolume ((s.setDisk b w').setMap freemap) := by
      rw [hs']
      rfl
    rw [hst]
    have hio' : s.io 0 = true := by
      rw [hs'] at hio
      exact hio
    obtain ⟨hclr, habs, hshr⟩ := h.clearEntries (w := w') hlive hi1 hb' hb0 fun k _ => by
      rw [he.word]
      split_ifs
      · exact Or.inr rfl
      · exact Or.inl rfl
    have hphys : ((s.setDisk b w').setMap freemap).Phys (loose ∪ {x | x ∈ s.leaked}) := by
      refine hclr.unmark Set.subset_union_left hn (fun k => ?_) fun k => ?_
      · rw [hm, he.freed_iff]
        exact Iff.rfl
      · refine ⟨fun hk => ⟨Or.inr hk, ?_⟩, fun hk => hk.1.resolve_left hk.2⟩
        rintro ⟨h0, j, hj, rfl, -⟩
        exact h.held.disj (ref_of_entry hlive hb' hb0 hj h0) hk
    refine ⟨⟨hphys, (Next.idDone hio').volume _, hshr.setMap _, _, habs, ?_, ?_⟩, ?_⟩
    · rw [abs_file hlive]
      rfl
    · rw [abs_file hlive]
      rfl
    · exact inode_setDisk (Or.inl (Option.isSome_of_eq_some hi))
  · rw [hs'] at hio
    refine Call.does_of_eq hwr ⟨fun hok => hio (hok 0), fun answers hn => ?_, ?_⟩
    · refine ⟨s.calls, ?_, ?_⟩
      · rw [hs']
        exact List.mem_cons_self
      · rw [← hn.io_zero]
        exact Bool.eq_false_iff.mpr hio
    · -- The block on disk has the number of a block that is free.
      obtain ⟨k, hk, hf⟩ := hf
      refine ⟨.data i (15 + k), getWord (s.disk b) k, ?_, fun hu => ?_⟩
      · rw [hs']
        exact ref_of_entry hlive hb' hb0 (List.mem_range.mp hk) hf.2
      · have hmk : freemap.Marked (getWord (s.disk b) k) := hfm ▸ hu.2
        exact ((hm _).mp hmk).2 ⟨k, hk, hf, rfl⟩

/-- What the part of `sfs_itrunc` for the indirect block does. -/
theorem itruncIndirect_does (h : s.Ok loose) (hi : s.loaded i = some sv) (hi1 : i ≠ 1) :
    (itruncIndirect i blocklen).Does ok s fun r s' => match r with
      | .ok _ => Trimmed i s loose s' ∧ (blocklen < 15 → sfiIndirect (s'.inode i) = 0) ∧
          ∀ k < 15, sfiDirect (s'.inode i) k = sfiDirect (s.inode i) k
      | .error _ => ¬s.IoOk ∧ (Trimmed i s loose s' ∨ 15 ≤ blocklen ∧ Torn s s') := by
  have hlive := live_of_loaded hi
  have hinode := inode_of_loaded hi
  unfold itruncIndirect
  rw [Call.does_bind_of_ok (getVnode_eq hi)]
  dsimp only
  split_ifs with hc
  · obtain ⟨hlen, hb0⟩ := hc
    have hb' : sfiIndirect (s.inode i) = sfiIndirect sv.svI := by rw [hinode]
    refine does_readblock (h.lt_device (show s.Ref (.indirect i) _ from ⟨hlive, hb0, hb'⟩))
      (fun hio => ⟨fun hok => hio (hok 0), Or.inl (Trimmed.refl h).ioDone⟩) fun _ => ?_
    have h₁ : s.ioDone.Ok loose := h
    have hi₁ : s.ioDone.loaded i = some sv := hi
    obtain ⟨w', s', heq, he⟩ := itruncEntries_file blocklen (h₁.holdsFile hlive) hb' hb0
    have heq' : itruncEntries blocklen (List.range 128)
      (s.disk (sfiIndirect sv.svI), false, false) s.ioDone = _ := heq
    rw [Call.does_bind_of_ok heq']
    have hback : ∀ {s''}, Trimmed i s.ioDone loose s'' → Trimmed i s loose s'' :=
      fun ht => (Trimmed.refl h).ioDone.trans ht
    -- An entry that is left is one below `blocklen`.
    have hleft : (List.range 128).any (getWord w' · ≠ 0) ≠ false → 15 ≤ blocklen := by
      intro hz
      obtain ⟨k, hk, hw⟩ := List.any_eq_true.mp (Bool.eq_true_of_not_eq_false hz)
      by_contra hlt
      rw [he.word, if_pos ⟨hk, by omega⟩] at hw
      cases hw
    split_ifs with hz hd
    · refine (freeIndirect_does h₁ hi₁ hi1 rfl hb0 he fun k hk => ?_).mono ?_
      · simpa using List.any_eq_false.mp hz k (List.mem_range.mpr hk)
      · rintro r s'' ⟨rfl, ht, hind, hdir⟩
        exact ⟨hback ht, fun _ => hind, hdir⟩
    · obtain ⟨k, hk, hf⟩ := List.any_eq_true.mp hd
      have hwr : (sfsWriteIdblock _ w').Does ok s' _ :=
        writeEntries_does h₁ hi₁ hi1 rfl hb0 he ⟨k, hk, of_decide_eq_true hf⟩
      refine hwr.mono fun r s'' hr => ?_
      cases r with
      | ok _ =>
        refine ⟨hback hr.1, fun hlt => absurd hlt (not_lt.mpr (hleft hz)), fun k _ => ?_⟩
        rw [hr.2]
        rfl
      | error e =>
        exact ⟨fun hok => hr.1 fun n => hok (n + 1),
          Or.inr ⟨hleft hz, hr.2.of_next (.ioDone s)⟩⟩
    · obtain rfl : s' = s.ioDone := he.none fun k hk hf =>
        hd (List.any_eq_true.mpr ⟨k, hk, decide_eq_true hf⟩)
      exact ⟨(Trimmed.refl h).ioDone, fun hlt => absurd hlt (not_lt.mpr (hleft hz)),
        fun _ _ => rfl⟩
  · refine ⟨.refl h, fun hlt => ?_, fun _ _ => rfl⟩
    rw [hinode]
    by_contra h0
    exact hc ⟨by omega, h0⟩

end Indirect

/-! ## `sfs_itrunc` -/

/-- The size of a file other than the directory changes. -/
theorem setSize_does (n : ℕ) (h : s.Ok loose) (hi : s.loaded i = some sv) (hi1 : i ≠ 1) :
    (setInode i (setSfiSize n)).Does ok s fun r s' => r = .ok () ∧ Trimmed i s loose s' ∧
      Shows s loose (s.abs.setFile i { s.abs.file i with size := n % 2 ^ 32 }) s' ∧
      s'.inode i = setSfiSize n (s.inode i) := by
  have hfile := abs_file_of_loaded hi
  obtain ⟨hp, habs, href⟩ := h.changeInode (g := setSfiSize n) hi (fun k _ => by simp) (by simp)
    fun h1 => absurd h1 hi1
  have hview : viewOf s.disk (setSfiSize n sv.svI) = { s.abs.file i with size := n % 2 ^ 32 } := by
    rw [viewOf_attrs (d := sv.svI) (by simp) (by simp), hfile]
    simp [viewOf]
  rw [hview] at habs
  refine ⟨rfl, ⟨hp, (Next.refl s).volume _, .of_iff href, _, habs, rfl, rfl⟩,
    ⟨hp, habs, (Next.refl s).volume _, .of_iff href⟩, ?_⟩
  rw [inode_of_loaded hi]
  exact inode_setInode hi

theorem sfsItrunc_does (len : ℤ) (h : s.Ok loose) (hi : s.loaded i = some sv) (hi1 : i ≠ 1) :
    (sfsItrunc i len).Does ok s fun r s' => match r with
      | .ok _ => Trimmed i s loose s' ∧ (itruncBlocklen len = 0 → s'.Hollow i)
      | .error _ => ¬s.IoOk ∧ (Trimmed i s loose s' ∨ 15 ≤ itruncBlocklen len ∧ Torn s s') := by
  refine (itruncDirects_does h hi hi1).bind (fun e s' he => absurd he.1 (by simp)) ?_
  rintro _ s₁ ⟨-, ht⟩
  obtain ⟨sv₁, hi₁⟩ := ht.trimmed.exists_loaded h hi
  refine (itruncIndirect_does ht.trimmed.ok hi₁ hi1).bind ?_ ?_
  · rintro e s' ⟨hio, ht' | ht'⟩
    · exact ⟨fun hok => hio (ht.trimmed.next.io hok), Or.inl (ht.trimmed.trans ht')⟩
    · exact ⟨fun hok => hio (ht.trimmed.next.io hok),
        Or.inr ⟨ht'.1, ht'.2.of_next ht.trimmed.next⟩⟩
  · rintro _ s₂ ⟨ht₂, hind, hdir⟩
    obtain ⟨sv₂, hi₂⟩ := ht₂.exists_loaded ht.trimmed.ok hi₁
    refine (setSize_does _ ht₂.ok hi₂ hi1).mono ?_
    rintro _ s₃ ⟨rfl, ht₃, -, hinode⟩
    refine ⟨ht.trimmed.trans (ht₂.trans ht₃), fun h0 => ?_⟩
    rw [h0] at hind ht
    unfold Hollow
    rw [hinode]
    refine ⟨by simpa using hind (by decide), fun k hk => ?_⟩
    rw [sfiDirect_setSfiSize, hdir k hk]
    exact ht.direct k hk (by simp) (Nat.zero_le k)

end OS161
