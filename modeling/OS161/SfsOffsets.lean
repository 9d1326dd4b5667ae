import OS161.Sfs

/-!
# SFS : 64-bit positions and 32-bit numbers

A position in a file has 64 bits, a block number 32. `sfs_partialio` and `sfs_blockio` divide
the position by the block size and keep the low 32 bits, and `sfs_bmap` refuses a block number
from `SFS_NDIRECT + SFS_DBPERIDB` on. `write_past_limit_iff` : a write past the largest file is
refused exactly if the truncated block number is past it, too.

The other way round, `sfs_blockio` multiplies a block number by the block size to get a position
on the device, in 32 bits. `transfers_same_block_iff` : its transfers and those of
`sfs_partialio` are to and from the bytes of the block exactly for the block numbers below
`2 ^ 23`.
-/

namespace OS161

open Call

variable {fileblock ino : ℕ} {p : Sfs × Uio} {sv : SfsVnode}

/-! ## The error codes of `sfs_bmap` -/

/-- Any error code but `EFBIG`. -/
abbrev NotTooBig : Errno → Prop :=
  (· ≠ .EFBIG)

theorem notTooBig_eio : NotTooBig Errno.EIO := by
  decide

theorem sfsReadblock_reports (block : ℕ) : (sfsReadblock block).Reports NotTooBig := by
  intro s
  unfold Does sfsReadblock
  split_ifs <;> simp [notTooBig_eio]

theorem sfsWriteblock_reports (block : ℕ) (data : DiskBlock) :
    (sfsWriteblock block data).Reports NotTooBig := by
  intro s
  unfold Does sfsWriteblock
  split_ifs <;> simp [notTooBig_eio]

theorem unmarkBlock_reports (block : ℕ) : (unmarkBlock block).Reports NotTooBig :=
  .bind .get fun _ => .bind (.lift _) fun _ => .modify _

theorem sfsBalloc_reports : sfsBalloc.Reports NotTooBig := by
  refine .bind .get fun s => .bind (.lift _) fun r => ?_
  cases r with
  | none => exact .fail (by decide)
  | some r =>
    refine .bind (.modify _) fun _ => ?_
    split_ifs
    · exact .stop _
    · refine .attempt_bind (sfsWriteblock_reports _ _) (fun _ => .pure _) fun e he => ?_
      exact .bind (unmarkBlock_reports _) fun _ => .fail he

theorem getVnode_reports (ino : ℕ) : (getVnode ino).Reports NotTooBig :=
  .bind .get fun _ => .lift _

theorem handBack_reports (block : ℕ) : (handBack block).Reports NotTooBig := by
  unfold handBack
  split_ifs
  · exact .pure _
  · refine .bind (.bind .get fun s => ?_) fun used => ?_
    · split_ifs
      · exact .stop _
      · exact .pure _
    · split_ifs
      · exact .pure _
      · exact .stop _

theorem bmapEnter_reports (idblock : ℕ) (idbuf : DiskBlock) (idoff : ℕ) :
    (bmapEnter idblock idbuf idoff).Reports NotTooBig := by
  refine .bind sfsBalloc_reports fun block => ?_
  refine .attempt_bind (.bind (.modify _) fun _ => sfsWriteblock_reports _ _)
    (fun _ => handBack_reports _) fun e he => ?_
  exact .bind (.modify _) fun _ => .fail he

theorem bmapDirect_reports (ino fileblock : ℕ) (doalloc : Bool) :
    (bmapDirect ino fileblock doalloc).Reports NotTooBig := by
  refine .bind (getVnode_reports ino) fun sv => ?_
  dsimp only
  split_ifs
  · exact .bind sfsBalloc_reports fun block => .bind (.modify _) fun _ => handBack_reports _
  · exact handBack_reports _

theorem bmapIndirect_reports (ino idoff : ℕ) (doalloc : Bool) :
    (bmapIndirect ino idoff doalloc).Reports NotTooBig := by
  refine .bind (getVnode_reports ino) fun sv => ?_
  dsimp only
  split_ifs
  · exact .pure _
  · exact .bind sfsBalloc_reports fun block => .bind (.modify _) fun _ => bmapEnter_reports _ _ _
  · refine .bind (sfsReadblock_reports _) fun idbuf => ?_
    split_ifs
    · exact bmapEnter_reports _ _ _
    · exact handBack_reports _

/-- A block number below the limit is not refused. -/
theorem sfsBmap_reports (h : fileblock < 143) (ino : ℕ) (doalloc : Bool) :
    (sfsBmap ino fileblock doalloc).Reports NotTooBig := by
  unfold sfsBmap
  split_ifs with h15 h128
  · exact bmapDirect_reports _ _ _
  · omega
  · exact bmapIndirect_reports _ _ _

/-- One from the limit on is. -/
theorem sfsBmap_tooBig (h : 143 ≤ fileblock) (ino : ℕ) (doalloc : Bool) (s : Sfs) :
    sfsBmap ino fileblock doalloc s = .ok (.error .EFBIG, s) := by
  unfold sfsBmap
  rw [if_neg (by omega), if_pos (by omega)]
  rfl

/-! ## The position of a uio -/

/-- The position after the moves of `uiomove` is not before the one it started from, and past
it if there was something to move. -/
theorem uiomoveLoop_offset : ∀ (iov : List ℕ) (buf : ℕ → UInt8) (ptr n : ℕ) (u : Uio),
    Meets anyHalt (fun r => u.uioOffset ≤ r.2.uioOffset ∧
      (0 < n → 0 < u.uioResid → u.uioResid < 2 ^ 32 → u.uioOffset < r.2.uioOffset))
      (uiomoveLoop iov buf ptr n u)
  | [], buf, ptr, n, u => by
    unfold uiomoveLoop
    split_ifs with h
    · exact ⟨le_rfl, by omega⟩
    · trivial
  | len :: iov, buf, ptr, n, u => by
    have hoff : ∀ k, (u.transfer buf ptr k).2.uioOffset = u.uioOffset + k := by
      intro k
      unfold Uio.transfer
      cases u.uioRw <;> rfl
    unfold uiomoveLoop
    split_ifs with h hlt
    · exact ⟨le_rfl, by omega⟩
    · have := hoff n
      exact ⟨by dsimp only; omega, fun _ _ _ => by dsimp only; omega⟩
    · refine (uiomoveLoop_offset iov _ (ptr + len) (n - len) _).mono fun r hr => ?_
      rw [hoff] at hr
      refine ⟨by omega, fun hn hres hres' => ?_⟩
      rcases Nat.eq_zero_or_pos len with rfl | hpos
      · rw [Uio.transfer_zero hres'] at hr
        exact hr.2 hn hres hres'
      · omega

theorem uiomovezerosLoop_offset : ∀ (fuel n : ℕ) (u : Uio),
    Meets anyHalt (fun u' => u.uioOffset ≤ u'.uioOffset) (uiomovezerosLoop fuel n u)
  | 0, _, u => le_refl u.uioOffset
  | fuel + 1, n, u => by
    unfold uiomovezerosLoop
    split_ifs
    · exact le_refl u.uioOffset
    · refine (uiomoveLoop_offset _ _ _ _ u).bind fun r hr => ?_
      exact (uiomovezerosLoop_offset fuel _ r.2).mono fun u' hu' => hr.1.trans hu'

theorem onFs_does {α : Type} {m : SfsM α} {P : Except Errno α → Prop} (p : Sfs × Uio)
    (h : m.Does anyHalt p.1 fun r _ => P r) :
    (onFs m).Does anyHalt p fun r p' => p'.2 = p.2 ∧ P r :=
  Meets.bind h fun _ hr => ⟨rfl, hr⟩

theorem moveUio_does (buf : DiskBlock) (ptr n : ℕ) (p : Sfs × Uio) :
    (moveUio buf ptr n).Does anyHalt p fun r p' => (∃ a, r = .ok a) ∧
      p.2.uioOffset ≤ p'.2.uioOffset ∧ (0 < n → 0 < p.2.uioResid → p.2.uioResid < 2 ^ 32 →
        p.2.uioOffset < p'.2.uioOffset) :=
  (uiomoveLoop_offset _ buf ptr n p.2).bind fun r hr => ⟨⟨r.1, rfl⟩, hr⟩

/-! ## Pieces of a transfer -/

/-- A piece is in the blocks that `sfs_bmap` does not refuse, and there is something to move. -/
structure Accepted (u : Uio) : Prop where
  block : word32 (u.uioOffset / 512) < 143
  resid_pos : 0 < u.uioResid
  resid_lt : u.uioResid < 2 ^ 32

/-- The uio has moved on, or there was an error other than `EFBIG`. -/
def MovedOn (u : Uio) (r : Except Errno Unit) (u' : Uio) : Prop :=
  u.uioOffset < u'.uioOffset ∨ ∃ e, r = .error e ∧ NotTooBig e

/-- What follows does not undo the progress. -/
theorem MovedOn.bind {m : UioM Unit} {f : Unit → UioM Unit}
    (hm : m.Does anyHalt p fun r p' => MovedOn p.2 r p'.2)
    (hf : ∀ q, (f ()).Does anyHalt q fun _ q' => q.2.uioOffset ≤ q'.2.uioOffset) :
    (m >>= f).Does anyHalt p fun r p' => MovedOn p.2 r p'.2 := by
  refine hm.bind (fun e q h => ?_) fun _ q h => ?_
  · rcases h with h | ⟨e', ⟨⟩, he⟩
    · exact Or.inl h
    · exact Or.inr ⟨e, rfl, he⟩
  · rcases h with h | ⟨e', h, -⟩
    · exact (hf q).mono fun _ _ h' => Or.inl (lt_of_lt_of_le h h')
    · cases h

theorem sfsBmap_piece (ino : ℕ) (p : Sfs × Uio) :
    (onFs (sfsBmap ino (word32 (p.2.uioOffset / 512)) (p.2.uioRw = .write))).Does anyHalt p
      fun r p' => p'.2 = p.2 ∧ (Accepted p.2 → ∀ e, r = .error e → NotTooBig e) := by
  by_cases h : word32 (p.2.uioOffset / 512) < 143
  · exact (onFs_does p (sfsBmap_reports h ino _ p.1)).mono fun r p' hr => ⟨hr.1, fun _ => hr.2⟩
  · refine (onFs_does (P := fun _ => True) p (Meets.any _)).mono fun r p' hr => ⟨hr.1, ?_⟩
    exact fun ha => absurd ha.block h

theorem sfsRwblock_does (p : Sfs × Uio) : sfsRwblock.Does anyHalt p fun r p' =>
    p.2.uioOffset ≤ p'.2.uioOffset ∧
      (0 < p.2.uioResid → p.2.uioResid < 2 ^ 32 → MovedOn p.2 r p'.2) := by
  unfold Does sfsRwblock
  dsimp only
  split_ifs
  · trivial
  · refine (uiomoveLoop_offset _ _ 0 512 p.2).bind fun r hr => ?_
    cases p.2.uioRw with
    | read | write => exact ⟨hr.1, fun h0 h32 => Or.inl (hr.2 (by decide) h0 h32)⟩
  · exact ⟨le_rfl, fun _ _ => Or.inr ⟨_, rfl, notTooBig_eio⟩⟩

theorem sfsPartialio_does (ino skipstart len : ℕ) (p : Sfs × Uio) :
    (sfsPartialio ino skipstart len).Does anyHalt p fun r p' =>
      p.2.uioOffset ≤ p'.2.uioOffset ∧ (0 < len → Accepted p.2 → MovedOn p.2 r p'.2) := by
  refine does_get_bind.mpr (.lift_bind (Meets.any _) fun _ _ => ?_)
  refine (sfsBmap_piece ino p).bind ?_ ?_
  · rintro e p' ⟨hu, he⟩
    exact ⟨hu ▸ le_rfl, fun _ ha => Or.inr ⟨e, rfl, he ha e rfl⟩⟩
  rintro diskblock p' ⟨hu, -⟩
  by_cases h0 : diskblock = 0
  · rw [if_pos h0]
    refine .lift_bind (Meets.any _) fun _ _ => ?_
    refine (moveUio_does _ _ _ p').bind (fun e q h => ?_) fun a q h => ?_
    · obtain ⟨⟨a, ha⟩, -⟩ := h
      cases ha
    · rw [hu] at h
      exact ⟨h.2.1, fun hlen ha => Or.inl (h.2.2 hlen ha.resid_pos ha.resid_lt)⟩
  · rw [if_neg h0]
    refine (onFs_does p' (sfsReadblock_reports diskblock p'.1)).bind (fun e q h => ?_) ?_
    · exact ⟨h.1 ▸ hu ▸ le_rfl, fun _ _ => Or.inr ⟨e, rfl, h.2 e rfl⟩⟩
    rintro iobuf q ⟨hq, -⟩
    refine (moveUio_does _ _ _ q).bind (fun e q' h => ?_) fun iobuf q' h => ?_
    · obtain ⟨⟨a, ha⟩, -⟩ := h
      cases ha
    · rw [hq, hu] at h
      have hmoved : 0 < len → Accepted p.2 → p.2.uioOffset < q'.2.uioOffset :=
        fun hlen ha => h.2.2 hlen ha.resid_pos ha.resid_lt
      split_ifs
      · refine (onFs_does q' (sfsWriteblock_reports diskblock iobuf q'.1)).mono fun r q'' hr => ?_
        rw [hr.1]
        exact ⟨h.2.1, fun hlen ha => Or.inl (hmoved hlen ha)⟩
      · exact ⟨h.2.1, fun hlen ha => Or.inl (hmoved hlen ha)⟩

theorem sfsBlockio_does (ino : ℕ) (p : Sfs × Uio) :
    (sfsBlockio ino).Does anyHalt p fun r p' => p.2.uioOffset ≤ p'.2.uioOffset ∧
      (Accepted p.2 → p.2.uioRw = .write → MovedOn p.2 r p'.2) := by
  refine does_get_bind.mpr ((sfsBmap_piece ino p).bind ?_ ?_)
  · rintro e p' ⟨hu, he⟩
    exact ⟨hu ▸ le_rfl, fun ha _ => Or.inr ⟨e, rfl, he ha e rfl⟩⟩
  rintro diskblock p' ⟨hu, -⟩
  by_cases h0 : diskblock = 0
  · rw [if_pos h0]
    refine .lift_bind (R := fun _ => p.2.uioRw = .read) ?_ fun _ hr => ?_
    · unfold kassert
      split_ifs with hr
      · exact hr
      · trivial
    refine .lift_bind (R := fun u' => p.2.uioOffset ≤ u'.uioOffset) ?_ fun u' hu' => ?_
    · exact (Meets.any _).bind fun _ _ => uiomovezerosLoop_offset 512 512 p.2
    · exact ⟨hu', fun _ hw => absurd (hr.symm.trans hw) (by decide)⟩
  · rw [if_neg h0]
    refine .lift_bind (Meets.any _) fun _ _ => does_modify_bind.mpr ?_
    refine (sfsRwblock_does _).attempt_bind fun r q h => does_modify_bind.mpr ?_
    rw [does_report]
    dsimp only at h ⊢
    refine ⟨by omega, fun _ _ => ?_⟩
    rcases h.2 (by decide) (by decide) with hlt | herr
    · exact Or.inl (by dsimp only at hlt ⊢; omega)
    · exact Or.inr herr

/-! ## A write at a position past the largest file -/

/-- The rest of a transfer does not move the uio back. -/
theorem sfsTrailing_does (ino : ℕ) (p : Sfs × Uio) :
    (sfsTrailing ino).Does anyHalt p fun r p' => p.2.uioOffset ≤ p'.2.uioOffset ∧
      (Accepted p.2 → MovedOn p.2 r p'.2) := by
  refine does_get_bind.mpr (.lift_bind (Meets.any _) fun _ _ => ?_)
  split_ifs with hres
  · exact (sfsPartialio_does ino 0 _ p).mono fun r p' h => ⟨h.1, h.2 hres⟩
  · exact ⟨le_rfl, fun ha => absurd ha.resid_pos hres⟩

theorem forEach_sfsBlockio_does (ino : ℕ) (l : List ℕ) (p : Sfs × Uio) :
    (Call.forEach (fun _ => sfsBlockio ino) l).Does anyHalt p fun _ p' =>
      p.2.uioOffset ≤ p'.2.uioOffset := by
  refine Does.forEach (I := fun _ q => p.2.uioOffset ≤ q.2.uioOffset) ?_ (fun _ h => h) l p le_rfl
  intro b l q hq
  refine (sfsBlockio_does ino q).mono fun r q' h => ?_
  cases r <;> exact hq.trans h.1

/-- The blocks after the leading one do not move the uio back. -/
theorem sfsTransfer_rest_does (ino : ℕ) (p : Sfs × Uio) : (do
    let p ← Call.get
    if p.2.uioResid = 0 then pure ()
    else do
      Call.lift (kassert (p.2.uioOffset % 512 = 0) "uio->uio_offset % SFS_BLOCKSIZE == 0")
      Call.forEach (fun _ => sfsBlockio ino) (List.range (p.2.uioResid / 512))
      sfsTrailing ino : UioM Unit).Does anyHalt p fun _ p' => p.2.uioOffset ≤ p'.2.uioOffset := by
  refine does_get_bind.mpr ?_
  split_ifs
  · exact le_refl p.2.uioOffset
  · refine .lift_bind (Meets.any _) fun _ _ => ?_
    refine (forEach_sfsBlockio_does ino _ p).bind (fun _ _ h => h) fun _ q hq => ?_
    exact (sfsTrailing_does ino q).mono fun _ _ h => hq.trans h.1

/-- A write that begins in a block that `sfs_bmap` does not refuse makes progress. -/
theorem sfsTransfer_does (ha : Accepted p.2) (hw : p.2.uioRw = .write) :
    (sfsTransfer ino).Does anyHalt p fun r p' => MovedOn p.2 r p'.2 := by
  by_cases hblk : p.2.uioOffset % 512 = 0
  · have hlead : sfsLeading ino p = .ok (.ok (), p) := by
      change (if p.2.uioOffset % 512 ≠ 0 then _ else _ : UioM Unit) p = _
      rw [if_neg (by simp [hblk])]
      rfl
    refine (does_bind_of_ok hlead).mpr (does_get_bind.mpr ?_)
    rw [if_neg ha.resid_pos.ne']
    refine (does_lift_bind (kassert_pos hblk _)).mpr ?_
    cases hn : p.2.uioResid / 512 with
    | zero => exact (sfsTrailing_does ino p).mono fun r p' h => h.2 ha
    | succ n =>
      rw [List.range_succ_eq_map]
      refine MovedOn.bind ?_ fun q => (sfsTrailing_does ino q).mono fun _ _ h => h.1
      refine MovedOn.bind ?_ fun q => forEach_sfsBlockio_does ino _ q
      exact (sfsBlockio_does ino p).mono fun _ _ h => h.2 ha hw
  · refine MovedOn.bind ?_ fun q => sfsTransfer_rest_does ino q
    refine does_get_bind.mpr ?_
    rw [if_pos hblk]
    have hlen : 0 < min (512 - p.2.uioOffset % 512) p.2.uioResid :=
      lt_min (by omega) ha.resid_pos
    exact (sfsPartialio_does ino _ _ p).mono fun _ _ h => h.2 hlen ha

/-- A piece in a block that `sfs_bmap` refuses. -/
theorem sfsPartialio_tooBig {skipstart len : ℕ}
    (hb : 143 ≤ word32 (p.2.uioOffset / 512)) (hlen : skipstart + len ≤ 512) :
    sfsPartialio ino skipstart len p = .ok (.error .EFBIG, p) := by
  unfold sfsPartialio
  rw [bind_of_ok (a := p) rfl, kassert_bind hlen]
  exact bind_of_error (onFs_eq (sfsBmap_tooBig hb ino _ p.1) p.2)

theorem sfsBlockio_tooBig
    (hb : 143 ≤ word32 (p.2.uioOffset / 512)) : sfsBlockio ino p = .ok (.error .EFBIG, p) := by
  unfold sfsBlockio
  rw [bind_of_ok (a := p) rfl]
  exact bind_of_error (onFs_eq (sfsBmap_tooBig hb ino _ p.1) p.2)

theorem sfsTransfer_tooBig
    (hb : 143 ≤ word32 (p.2.uioOffset / 512)) (hres : 0 < p.2.uioResid) :
    sfsTransfer ino p = .ok (.error .EFBIG, p) := by
  unfold sfsTransfer
  by_cases hblk : p.2.uioOffset % 512 = 0
  · have hlead : sfsLeading ino p = .ok (.ok (), p) := by
      change (if p.2.uioOffset % 512 ≠ 0 then _ else _ : UioM Unit) p = _
      rw [if_neg (by simp [hblk])]
      rfl
    rw [bind_of_ok hlead, bind_of_ok (a := p) rfl, if_neg hres.ne',
      kassert_bind hblk]
    cases hn : p.2.uioResid / 512 with
    | zero =>
      change sfsTrailing ino p = _
      unfold sfsTrailing
      rw [bind_of_ok (a := p) rfl, kassert_bind (by omega),
        if_pos hres, sfsPartialio_tooBig hb (by omega)]
    | succ n =>
      rw [List.range_succ_eq_map]
      exact bind_of_error (bind_of_error (sfsBlockio_tooBig hb))
  · refine bind_of_error ?_
    unfold sfsLeading
    rw [bind_of_ok (a := p) rfl, if_pos hblk, sfsPartialio_tooBig hb (by omega)]

/-- `sfs_io` for writing is the transfer and what comes after it. -/
theorem sfsIo_write (hv : p.1.loaded ino = some sv)
    (hw : p.2.uioRw = .write) : sfsIo ino p = ((sfsTransfer ino).attempt >>= fun result =>
      sfsIoOut ino p.2.uioResid 0 result) p := by
  have hread : ¬p.2.uioRw = .read := by
    rw [hw]
    decide
  have hget : onFs (getVnode ino) p = .ok (.ok sv, p) := onFs_eq (getVnode_eq hv) p.2
  unfold sfsIo
  rw [bind_of_ok (a := p) rfl, bind_of_ok hget, if_neg (fun h => hread h.1),
    if_neg (fun h => hread h.1)]

/-- The end of `sfs_io` after an error, with nothing moved. -/
theorem sfsIoOut_error (hv : p.1.loaded ino = some sv)
    (hres : p.2.uioResid < 2 ^ 32) (e : Errno) :
    sfsIoOut ino p.2.uioResid 0 (.error e) p = .ok (.error e, p) := by
  have hget : onFs (getVnode ino) p = .ok (.ok sv, p) := onFs_eq (getVnode_eq hv) p.2
  have hgrow : sfsGrow ino p.2.uioResid p = .ok (.ok (), p) := by
    unfold sfsGrow
    rw [bind_of_ok (a := p) rfl, bind_of_ok hget, if_neg (fun h => h.1 rfl)]
    rfl
  have hword : (p.1, { p.2 with uioResid := word32 (p.2.uioResid + 0) }) = p := by
    rw [show word32 (p.2.uioResid + 0) = p.2.uioResid from Nat.mod_eq_of_lt hres]
  unfold sfsIoOut
  rw [bind_of_ok hgrow]
  exact congrArg (fun q => Except.ok (Except.error e, q)) hword

/-- The end of `sfs_io` reports what happened and leaves the position as it is. -/
theorem sfsIoOut_does (ino origresid extraresid : ℕ) (result : Except Errno Unit)
    (p : Sfs × Uio) : (sfsIoOut ino origresid extraresid result).Does anyHalt p fun r p' =>
      r = result ∧ p'.2.uioOffset = p.2.uioOffset := by
  have hget : ∀ q, (onFs (getVnode ino)).Does anyHalt q fun r q' => q'.2 = q.2 ∧ ∃ a, r = .ok a :=
    fun q => onFs_does q (does_get_bind.mpr (by
      cases q.1.loaded ino with
      | none => trivial
      | some sv => exact ⟨sv, rfl⟩))
  refine Does.bind (P := fun r q => q.2 = p.2 ∧ ∃ a, r = .ok a) ?_ ?_ ?_
  · refine does_get_bind.mpr ((hget p).bind (fun e q h => h.imp_right ?_) fun sv q h => ?_)
    · rintro ⟨a, ha⟩
      cases ha
    · split_ifs
      · exact ⟨h.1, (), rfl⟩
      · exact ⟨h.1, (), rfl⟩
  · rintro e q ⟨-, a, ha⟩
    cases ha
  · rintro a q ⟨hq, -⟩
    refine does_modify_bind.mpr (does_report.mpr ⟨rfl, ?_⟩)
    rw [hq]

/-- A write is refused, with `EFBIG` and nothing changed, exactly if the low 32 bits of the block
number are past the largest file. -/
theorem write_past_limit_iff {s : Sfs} {u : Uio}
    (hv : s.loaded ino = some sv) (hw : u.uioRw = .write) (hres : 1 ≤ u.uioResid)
    (hres' : u.uioResid < 2 ^ 32) :
    (∃ s', sfsIo ino (s, u) = .ok (.error .EFBIG, (s', u)) ∧ s'.toVolume = s.toVolume) ↔
      15 + 128 ≤ u.uioOffset / 512 % 2 ^ 32 := by
  rw [sfsIo_write (p := (s, u)) hv hw]
  constructor
  · rintro ⟨s', hio, -⟩
    by_contra hlt
    have ha : Accepted u := ⟨not_le.mp hlt, hres, hres'⟩
    have hdoes : ((sfsTransfer ino).attempt >>= fun result =>
        sfsIoOut ino u.uioResid 0 result).Does anyHalt (s, u) fun r p' => MovedOn u r p'.2 := by
      refine (sfsTransfer_does (p := (s, u)) ha hw).attempt_bind fun r q h => ?_
      refine (sfsIoOut_does ino u.uioResid 0 r q).mono fun r' q' h' => ?_
      rw [h'.1]
      exact h.imp_left fun hlt => h'.2.symm ▸ hlt
    rcases hdoes.of_ok hio with hmoved | ⟨e, ⟨⟩, he⟩
    · exact hmoved.ne rfl
    · exact he rfl
  · intro hb
    refine ⟨s, ?_, rfl⟩
    rw [bind_of_ok (attempt_of_ok (sfsTransfer_tooBig (p := (s, u)) hb hres))]
    exact sfsIoOut_error (p := (s, u)) hv hres' _

/-- A volume whose file has one block, block `4`, filled with ones. -/
def Sfs.oneFile : Sfs :=
  .withInode 16 (setSfiDirect 0 4 (setSfiSize 512 zeroBlock))
    fun b => if b = 4 then fun _ => 1 else zeroBlock

/-- A write of one byte. -/
def Uio.writeByte (offset : ℕ) (x : UInt8) : Uio :=
  ⟨[1], offset, 1, .write, [x]⟩

theorem write_past_limit_iff_first : ∃ s', sfsIo 1 (Sfs.oneFile, Uio.writeByte (143 * 512) 7) =
    .ok (.error .EFBIG, (s', Uio.writeByte (143 * 512) 7)) ∧
      s'.toVolume = Sfs.oneFile.toVolume :=
  (write_past_limit_iff rfl rfl (by decide) (by decide)).mpr (by decide)

/-- A byte written at position `2 ^ 41` replaces the first byte of the file, and the size of the
file drops from `512` to `1`. -/
theorem write_far_accepted :
    (sfsIo 1 (Sfs.oneFile, Uio.writeByte (2 ^ 41) 7)).toOption.map (fun r =>
      (r.1.toOption, r.2.2.uioResid, r.2.1.disk 4 0,
        (r.2.1.loaded 1).map fun sv => sfiSize sv.svI)) = some (some (), 0, 7, some 1) ∧
    Sfs.oneFile.disk 4 0 = 1 ∧
    ((Sfs.oneFile.loaded 1).map fun sv => sfiSize sv.svI) = some 512 := by
  decide +kernel

/-! ## Whole blocks and parts of blocks -/

/-- `sfs_bmap` finds the block for the position of the uio, the device works, and the uio has
room for what is left to move. -/
structure MappedTo (s : Sfs) (ino : ℕ) (u : Uio) (b : ℕ) (s₁ : Sfs) : Prop where
  bmap : sfsBmap ino (word32 (u.uioOffset / 512)) (u.uioRw = .write) s = .ok (.ok b, s₁)
  io : ∀ k, s₁.io k = true
  device : s₁.sbNblocks ≤ s₁.dBlocks
  resid_lt : u.uioResid < 2 ^ 32
  room : u.uioResid ≤ u.uioIov.sum

/-- The call moves the `len` bytes from `skip` on of block `b` to the uio or the other way, and
no other block changes. -/
def MovesBlock (m : UioM Unit) (s : Sfs) (u : Uio) (s₁ : Sfs) (b skip len : ℕ) : Prop :=
  ∃ s' iov, m (s, u) =
    .ok (.ok (), (s', { (u.transfer (s₁.disk b) skip len).2 with uioIov := iov })) ∧
    s'.toVolume = match u.uioRw with
      | .read => s₁.toVolume
      | .write => s₁.setDisk b (u.transfer (s₁.disk b) skip len).1

section

variable {s s₁ : Sfs} {ino b skip len : ℕ} {u : Uio} {c : ℕ}

/-- `sfs_partialio` uses the block that `sfs_bmap` found. -/
theorem sfsPartialio_moves (h : MappedTo s ino u b s₁) (h0 : b ≠ 0) (hb : b < s₁.sbNblocks)
    (hlen : skip + len ≤ 512) (hres : len ≤ u.uioResid) :
    MovesBlock (sfsPartialio ino skip len) s u s₁ b skip len := by
  obtain ⟨iov, -, hmove⟩ := uiomove_eq (s₁.disk b) skip h.resid_lt hres h.room
  have hdev : b < s₁.dBlocks := lt_of_lt_of_le hb h.device
  have hread : sfsReadblock b s₁ = .ok (.ok (s₁.disk b), s₁.ioDone) := by
    rw [sfsReadblock_eq hdev, if_pos (h.io 0)]
  have hmoved : moveUio (s₁.disk b) skip len (s₁.ioDone, u) =
      .ok (.ok (u.transfer (s₁.disk b) skip len).1, (s₁.ioDone,
        { (u.transfer (s₁.disk b) skip len).2 with uioIov := iov })) := by
    unfold moveUio
    rw [hmove]
    rfl
  unfold MovesBlock sfsPartialio
  rw [bind_of_ok (a := (s, u)) rfl, kassert_bind hlen,
    bind_of_ok (onFs_eq h.bmap u), if_neg h0, bind_of_ok (onFs_eq hread u),
    bind_of_ok hmoved]
  cases hrw : u.uioRw with
  | read => exact ⟨_, iov, rfl, rfl⟩
  | write =>
    have hwrite : sfsWriteblock b (u.transfer (s₁.disk b) skip len).1 s₁.ioDone =
        .ok (.ok (), s₁.ioDone.ioDone.withVolume
          (s₁.setDisk b (u.transfer (s₁.disk b) skip len).1)) := by
      have hio : s₁.ioDone.io 0 = true := h.io 1
      rw [sfsWriteblock_eq (s := s₁.ioDone) hdev, if_pos hio]
      rfl
    exact ⟨_, iov, onFs_eq hwrite _, rfl⟩

/-- The position on the device that `sfs_blockio` computes. -/
theorem word32_block (b : ℕ) : word32 (b * 512) = b % 2 ^ 23 * 512 := by
  unfold word32
  omega

/-- The uio that `sfs_blockio` hands to the device. -/
def Uio.atBlock (u : Uio) (b : ℕ) : Uio :=
  { u with uioOffset := b * 512, uioResid := 512 }

/-- A transfer by the device, after the position and the residue are restored. -/
theorem Uio.transfer_atBlock {u : Uio} (hlt : u.uioResid < 2 ^ 32) (hres : 512 ≤ u.uioResid)
    (buf : DiskBlock) (b : ℕ) :
    ((u.atBlock b).transfer buf 0 512).1 = (u.transfer buf 0 512).1 ∧
    ∀ iov, { ((u.atBlock b).transfer buf 0 512).2 with
      uioIov := iov
      uioOffset := ((u.atBlock b).transfer buf 0 512).2.uioOffset + u.uioOffset - b * 512
      uioResid := ((u.atBlock b).transfer buf 0 512).2.uioResid + u.uioResid - 512 } =
      { (u.transfer buf 0 512).2 with uioIov := iov } := by
  have hoff : b * 512 + 512 + u.uioOffset - b * 512 = u.uioOffset + 512 := by omega
  have hres' : (512 + 2 ^ 32 - 512) % 2 ^ 32 + u.uioResid - 512 =
      (u.uioResid + 2 ^ 32 - 512) % 2 ^ 32 := by omega
  unfold Uio.transfer Uio.atBlock
  cases u.uioRw with
  | read | write => exact ⟨rfl, fun iov => by simp only [hoff, hres']⟩

theorem atBlock_in (hc : c < s.dBlocks) : (u.atBlock c).uioOffset / 512 = c ∧
    ¬((u.atBlock c).uioOffset % 512 ≠ 0 ∨ s.dBlocks ≤ (u.atBlock c).uioOffset / 512) := by
  have hdiv : (u.atBlock c).uioOffset / 512 = c := Nat.mul_div_cancel _ (by decide)
  have hmod : (u.atBlock c).uioOffset % 512 = 0 := Nat.mul_mod_left _ _
  rw [hdiv, hmod]
  exact ⟨rfl, by omega⟩

theorem sfsRwblock_fails (hc : c < s.dBlocks) (hio : s.io 0 = false) :
    sfsRwblock (s, u.atBlock c) = .ok (.error Errno.EIO, (s.ioDone, u.atBlock c)) := by
  unfold sfsRwblock
  rw [if_neg (atBlock_in hc).2, if_neg (by simp [hio])]

/-- `sfs_rwblock` for a block of the device. -/
theorem sfsRwblock_moves (hc : c < s.dBlocks) (hio : s.io 0 = true)
    (hroom : 512 ≤ u.uioIov.sum) : ∃ s' iov, sfsRwblock (s, u.atBlock c) = .ok (.ok (), (s',
      { ((u.atBlock c).transfer (s.disk c) 0 512).2 with uioIov := iov })) ∧
      iov.sum = u.uioIov.sum - 512 ∧ s' = match u.uioRw with
        | .read => s.ioDone
        | .write => s.ioDone.withVolume
            (s.setDisk c ((u.atBlock c).transfer (s.disk c) 0 512).1) := by
  obtain ⟨iov, hiov, hmove⟩ := uiomove_eq (n := 512) (u := u.atBlock c) (s.disk c) 0
    (show 512 < 2 ^ 32 by decide) le_rfl hroom
  obtain ⟨hdiv, hin⟩ := atBlock_in (u := u) hc
  unfold sfsRwblock
  rw [if_neg hin, if_pos hio]
  rw [hdiv, hmove, show (u.atBlock c).uioRw = u.uioRw from rfl]
  cases u.uioRw with
  | read | write => exact ⟨_, iov, rfl, hiov, rfl⟩

/-- `sfs_blockio` uses the block whose number has the same low 23 bits. -/
theorem sfsBlockio_moves (h : MappedTo s ino u b s₁) (h0 : b ≠ 0) (hb : b < s₁.sbNblocks)
    (hres : 512 ≤ u.uioResid) :
    MovesBlock (sfsBlockio ino) s u s₁ (b % 2 ^ 23) 0 512 := by
  have hdev : b % 2 ^ 23 < s₁.dBlocks :=
    lt_of_le_of_lt (Nat.mod_le _ _) (lt_of_lt_of_le hb h.device)
  obtain ⟨hbuf, hu⟩ := Uio.transfer_atBlock h.resid_lt hres (s₁.disk (b % 2 ^ 23)) (b % 2 ^ 23)
  obtain ⟨s', iov, hrw, -, hs'⟩ := sfsRwblock_moves (u := u) hdev (h.io 0) (hres.trans h.room)
  rw [hbuf] at hs'
  have hset : setUio { u with uioOffset := b % 2 ^ 23 * 512, uioResid := 512 } (s₁, u) =
    .ok (.ok (), (s₁, u.atBlock (b % 2 ^ 23))) := rfl
  refine ⟨s', iov, ?_, ?_⟩
  · unfold sfsBlockio
    rw [bind_of_ok (a := (s, u)) rfl, bind_of_ok (onFs_eq h.bmap u), if_neg h0]
    rw [word32_block, kassert_bind hres, bind_of_ok hset, bind_of_ok (attempt_of_ok hrw), ← hu]
    rfl
  · rw [hs']
    cases u.uioRw <;> rfl

end

/-- A volume of `n` blocks whose file begins with block `b`. -/
def Sfs.beginsWith (n b : ℕ) : Sfs :=
  .withInode n (setSfiDirect 0 b zeroBlock) fun _ => zeroBlock

/-- A write of the first block of a file. -/
def Uio.writeFirst (bytes : List UInt8) : Uio :=
  ⟨[512], 0, 512, .write, bytes⟩

theorem mappedTo_beginsWith {n b : ℕ} (h0 : b ≠ 0) (hb : b < n) (hn : n < 2 ^ 32)
    (bytes : List UInt8) :
    MappedTo (.beginsWith n b) 1 (.writeFirst bytes) b (.beginsWith n b) where
  bmap := by
    have hdirect : sfiDirect (setSfiDirect 0 b zeroBlock) 0 = b :=
      (getWord_setWord_self _ _ _).trans (Nat.mod_eq_of_lt (hb.trans hn))
    have hloaded : (Sfs.beginsWith n b).loaded 1 =
      some ⟨setSfiDirect 0 b zeroBlock, 1, false, 1⟩ := rfl
    have hin : ¬(Sfs.beginsWith n b).sbNblocks ≤ b := not_le.mpr hb
    have hused : sfsBused b (.beginsWith n b) = .ok (.ok true, .beginsWith n b) := by
      unfold sfsBused
      rw [bind_of_ok (a := Sfs.beginsWith n b) rfl, if_neg hin]
      exact congrArg (fun x => Except.ok (Except.ok x, Sfs.beginsWith n b)) (Bitmap.marked_full n b)
    have hfirst : word32 ((Uio.writeFirst bytes).uioOffset / 512) = 0 := by
      simp [Uio.writeFirst, word32]
    unfold sfsBmap
    rw [hfirst, if_pos (by decide)]
    unfold bmapDirect
    rw [bind_of_ok (getVnode_eq hloaded)]
    rw [hdirect, if_neg (fun h => h0 h.1)]
    unfold handBack
    rw [if_neg h0, bind_of_ok hused]
    rfl
  io _ := rfl
  device := le_rfl
  resid_lt := show 512 < 2 ^ 32 by decide
  room := show 512 ≤ [512].sum by simp

/-- The transfers of whole blocks and of parts of blocks are to and from block `b` and no other,
exactly if its number is below `2 ^ 23`. -/
theorem transfers_same_block_iff {n b : ℕ} (h0 : b ≠ 0) (hb : b < n) (hn : n < 2 ^ 32) :
    (∀ s s₁ ino u, s₁.sbNblocks = n → MappedTo s ino u b s₁ →
      (512 ≤ u.uioResid → MovesBlock (sfsBlockio ino) s u s₁ b 0 512) ∧
      ∀ skip len, skip + len ≤ 512 → len ≤ u.uioResid →
        MovesBlock (sfsPartialio ino skip len) s u s₁ b skip len) ↔ b < 2 ^ 23 := by
  constructor
  · intro h
    by_contra hge
    obtain ⟨bytes, hbytes⟩ : ∃ bytes : List UInt8, bytes.getD 0 0 = 1 :=
      ⟨List.replicate 512 1, rfl⟩
    have hmap := mappedTo_beginsWith h0 hb hn bytes
    obtain ⟨s', iov, hrun, hvol⟩ := (h _ _ _ _ rfl hmap).1 le_rfl
    obtain ⟨s'', iov', hrun', hvol'⟩ := sfsBlockio_moves hmap h0 hb le_rfl
    rw [hrun] at hrun'
    cases hrun'
    have hdisk := congrFun (congrFun (congrArg Volume.disk (hvol.symm.trans hvol')) b) 0
    have hne : b ≠ b % 2 ^ 23 := by omega
    simp only [Uio.writeFirst, Volume.setDisk, Uio.transfer, moveBytes, Sfs.beginsWith,
      Sfs.withInode, Function.update_self, Function.update_of_ne hne] at hdisk
    exact absurd (hbytes.symm.trans hdisk) (by decide)
  · rintro hlt s s₁ ino u rfl hmap
    refine ⟨fun hres => ?_, fun skip len hlen hres => sfsPartialio_moves hmap h0 hb hlen hres⟩
    have := sfsBlockio_moves hmap h0 hb hres
    rwa [Nat.mod_eq_of_lt hlt] at this

theorem transfers_same_block_iff_small :
    MovesBlock (sfsBlockio 1) (.beginsWith 16 4) (.writeFirst [7]) (.beginsWith 16 4) 4 0 512 ∧
    MovesBlock (sfsPartialio 1 0 512) (.beginsWith 16 4) (.writeFirst [7]) (.beginsWith 16 4) 4
      0 512 := by
  have h0 : 4 ≠ 0 := by decide
  have hb : 4 < 16 := by decide
  have hn : 16 < 2 ^ 32 := by decide
  have h := (transfers_same_block_iff h0 hb hn).mpr (by decide) _ _ _ _ rfl
    (mappedTo_beginsWith h0 hb hn [7])
  exact ⟨h.1 le_rfl, h.2 0 512 le_rfl le_rfl⟩

/-- On a volume of `2 ^ 24` blocks, a whole block written to block `2 ^ 23 + 4` goes to block
`4`, and a part of it is written to the right place. -/
theorem whole_block_misplaced :
    (sfsBlockio 1 (.beginsWith (2 ^ 24) (2 ^ 23 + 4), .writeFirst [7])).toOption.map (fun r =>
      (r.2.1.disk 4 0, r.2.1.disk (2 ^ 23 + 4) 0)) = some (7, 0) ∧
    (sfsPartialio 1 0 512 (.beginsWith (2 ^ 24) (2 ^ 23 + 4), .writeFirst [7])).toOption.map
      (fun r => (r.2.1.disk 4 0, r.2.1.disk (2 ^ 23 + 4) 0)) = some (0, 7) := by
  decide +kernel

end OS161
