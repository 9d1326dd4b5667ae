import OS161.Sfs

/-!
# The LAMEbus disk and the retries of SFS

`lhd_io` moves sectors between a uio and the disk, one request to the device for each. For a
write it takes the bytes from the uio before the request, so that after a request that failed
the uio is used up. `sfs_rwblock` hands the same uio to `lhd_io` again, up to ten times, as
long as it returns `EIO`.

`sfsReadblock_eq_abstract` : for reads this is one request that is answered if one of eleven is,
which is what `Sfs` takes a device to be. `block_io_iff` : for writes the second call of `lhd_io`
finds nothing to do and returns `0`, so that a write is on the disk when it returns `0` exactly
if the first request succeeds or the block is the data already.
-/

namespace OS161

open Call

/-- The disk : its sectors, the on-card buffer, and the outcomes of the requests to come, success
or `EIO`. `calls` counts the calls of `lhd_io`. -/
structure Lhd where
  dBlocks : ℕ
  sectors : ℕ → DiskBlock
  lhBuf : DiskBlock
  outcome : ℕ → Bool
  calls : ℕ

/-- The functions that move data between a uio and the disk. -/
abbrev LhdM (α : Type) : Type :=
  Call Halt Errno (Lhd × Uio) α

namespace Lhd

/-! ## `lhd.c` -/

/-- `uiomove` between the on-card buffer and the uio. -/
def moveBuf : LhdM Unit :=
  fun p => uiomove p.1.lhBuf 0 512 p.2 >>= fun r => .ok (.ok (), ({ p.1 with lhBuf := r.1 }, r.2))

/-- The device executes a request for a sector. -/
def request (rw : UioRw) (sector : ℕ) : LhdM Unit :=
  fun p =>
    let d := { p.1 with outcome := fun n => p.1.outcome (n + 1) }
    if p.1.outcome 0 then
      match rw with
      | .read => .ok (.ok (), ({ d with lhBuf := d.sectors sector }, p.2))
      | .write =>
        .ok (.ok (), ({ d with sectors := Function.update d.sectors sector d.lhBuf }, p.2))
    else .ok (.error Errno.EIO, (d, p.2))

/-- The body of the loop of `lhd_io`. The semaphores are left out. -/
def lhdSector (sector i : ℕ) : LhdM Unit := do
  let p ← Call.get
  match p.2.uioRw with
  | .write => do
    moveBuf
    request .write (sector + i)
  | .read => do
    request .read (sector + i)
    moveBuf

/-- `lhd_io`. -/
def lhdIo : LhdM Unit := do
  Call.modify fun p => ({ p.1 with calls := p.1.calls + 1 }, p.2)
  let p ← Call.get
  let sector := word32 (p.2.uioOffset / 512)
  let sectoff := p.2.uioOffset % 512
  let len := p.2.uioResid / 512
  let lenoff := p.2.uioResid % 512
  if sectoff ≠ 0 ∨ lenoff ≠ 0 then Call.fail .EINVAL
  else if p.1.dBlocks < word32 (sector + len) then Call.fail .EINVAL
  else Call.forEach (lhdSector sector) (List.range len)

/-! ## `sfs_io.c` -/

/-- What `sfs_rwblock` does with the result of `lhd_io`. -/
def onResult (retry : LhdM Unit) : Except Errno Unit → LhdM Unit
  | .ok _ => pure ()
  | .error e =>
    if e = .EINVAL then Call.stop ioPanic
    else if e = Errno.EIO then retry
    else Call.fail e

/-- The loop of `sfs_rwblock`, with so many retries left. -/
def rwblockLoop : ℕ → LhdM Unit
  | 0 => lhdIo.attempt >>= onResult (Call.fail Errno.EIO)
  | left + 1 => lhdIo.attempt >>= onResult (rwblockLoop left)

/-- `sfs_rwblock`. -/
def sfsRwblock : LhdM Unit :=
  rwblockLoop 10

/-- `SFSUIO`. -/
def sfsuio (bytes : List UInt8) (block : ℕ) (rw : UioRw) : Uio :=
  ⟨[512], block * 512, 512, rw, bytes⟩

/-- `sfs_readblock`, which hands back the bytes in the buffer. -/
def sfsReadblock (block : ℕ) : Call Halt Errno Lhd (List UInt8) :=
  fun d => sfsRwblock (d, sfsuio [] block .read) >>= fun r =>
    .ok (r.1.map fun _ => r.2.2.bytes, r.2.1)

/-- `sfs_writeblock`. -/
def sfsWriteblock (block : ℕ) (data : DiskBlock) : Call Halt Errno Lhd Unit :=
  fun d => sfsRwblock (d, sfsuio (Uio.slice data 0 512) block .write) >>= fun r =>
    .ok (r.1, r.2.1)

/-! ## What one call of `lhd_io` does -/

variable {d : Lhd} {u : Uio} {block : ℕ} {data : DiskBlock}

/-- The device after a call that made `n` requests. -/
def after (d : Lhd) (n : ℕ) : Lhd :=
  { d with outcome := fun k => d.outcome (n + k), calls := d.calls + 1 }

/-- A uio for one sector of the disk. -/
structure AtSector (d : Lhd) (u : Uio) (block : ℕ) : Prop where
  lt : block < d.dBlocks
  dev : d.dBlocks < 2 ^ 32
  offset : u.uioOffset = block * 512
  resid : u.uioResid = 512
  iov : u.uioIov = [512]

theorem atSector_sfsuio (hb : block < d.dBlocks) (hd : d.dBlocks < 2 ^ 32) (bytes : List UInt8)
    (rw : UioRw) : AtSector d (sfsuio bytes block rw) block :=
  ⟨hb, hd, rfl, rfl, rfl⟩

theorem AtSector.after (h : AtSector d u block) (n : ℕ) : AtSector (d.after n) u block :=
  ⟨h.lt, h.dev, h.offset, h.resid, h.iov⟩

/-- The loop has one round. -/
theorem AtSector.lhdIo_eq (h : AtSector d u block) : lhdIo (d, u) =
    lhdSector block 0 ({ d with calls := d.calls + 1 }, u) := by
  have hdiv : word32 (u.uioOffset / 512) = block := by
    rw [h.offset, Nat.mul_div_cancel _ (by decide)]
    exact Nat.mod_eq_of_lt (h.lt.trans h.dev)
  have hin : ¬d.dBlocks < word32 (block + 1) := by
    have hlt := h.lt
    have hdev := h.dev
    rw [word32, Nat.mod_eq_of_lt (by omega)]
    omega
  unfold lhdIo
  rw [modify_bind_apply, get_bind_apply]
  rw [hdiv, h.resid, h.offset, if_neg (by omega), if_neg hin]
  exact forEach_singleton

theorem AtSector.lhdIo_eq_read (h : AtSector d u block) (hrw : u.uioRw = .read) :
    lhdIo (d, u) = (request .read block >>= fun _ => moveBuf)
      ({ d with calls := d.calls + 1 }, u) := by
  rw [h.lhdIo_eq]
  unfold lhdSector
  rw [get_bind_apply]
  rw [hrw]
  rfl

theorem AtSector.lhdIo_eq_write (h : AtSector d u block) (hrw : u.uioRw = .write) :
    lhdIo (d, u) = (moveBuf >>= fun _ => request .write block)
      ({ d with calls := d.calls + 1 }, u) := by
  rw [h.lhdIo_eq]
  unfold lhdSector
  rw [get_bind_apply]
  rw [hrw]
  rfl

/-- The bytes of a sector on the way between the uio and the buffer. -/
theorem AtSector.uiomove_eq (h : AtSector d u block) (buf : DiskBlock) :
    uiomove buf 0 512 u = .ok ((u.transfer buf 0 512).1,
      { (u.transfer buf 0 512).2 with uioIov := [] }) := by
  unfold uiomove
  rw [h.iov]
  unfold uiomoveLoop
  rw [if_neg (by rw [h.resid]; decide), if_neg (by decide)]
  unfold uiomoveLoop
  rw [if_pos (Or.inl rfl)]

/-- A read of a sector moves the uio after the request. -/
theorem lhdIo_read (h : AtSector d u block) (hrw : u.uioRw = .read) :
    (d.outcome 0 = true → ∃ d' u', lhdIo (d, u) = .ok (.ok (), (d', u')) ∧
      d'.sectors = d.sectors ∧ d'.calls = d.calls + 1 ∧
      u'.bytes = u.bytes ++ Uio.slice (d.sectors block) 0 512) ∧
    (d.outcome 0 = false → lhdIo (d, u) = .ok (.error Errno.EIO, (d.after 1, u))) := by
  rw [h.lhdIo_eq_read hrw]
  refine ⟨fun hout => ?_, fun hout => ?_⟩
  · have hreq : request .read block ({ d with calls := d.calls + 1 }, u) =
        .ok (.ok (), ({ d.after 1 with lhBuf := d.sectors block }, u)) := by
      unfold request
      rw [if_pos hout]
      simp only [Lhd.after, Nat.add_comm 1]
    have hmove := h.uiomove_eq (d.sectors block)
    rw [bind_of_ok hreq]
    unfold moveBuf
    rw [hmove]
    refine ⟨_, _, rfl, rfl, rfl, ?_⟩
    simp only [Uio.transfer, hrw]
  · refine bind_of_error ?_
    unfold request
    rw [if_neg (by simp [hout])]
    simp only [Lhd.after, Nat.add_comm 1]

/-- A write of a sector moves the uio before the request. -/
theorem lhdIo_write (h : AtSector d u block) (hrw : u.uioRw = .write) :
    ∃ d' u', lhdIo (d, u) =
      .ok (if d.outcome 0 then .ok () else .error Errno.EIO, (d', u')) ∧
      d'.dBlocks = d.dBlocks ∧ d'.calls = d.calls + 1 ∧
      (∀ k < 512, d.outcome 0 = true → d'.sectors block k = u.bytes.getD k 0) ∧
      (d.outcome 0 = false → d'.sectors = d.sectors) ∧
      u'.uioOffset = (block + 1) * 512 ∧ u'.uioResid = 0 ∧ u'.uioIov = [] := by
  rw [h.lhdIo_eq_write hrw]
  have hmove : moveBuf ({ d with calls := d.calls + 1 }, u) = _ :=
    congrArg (· >>= _) (h.uiomove_eq d.lhBuf)
  rw [bind_of_ok hmove]
  have hu : (u.transfer d.lhBuf 0 512).2.uioOffset = (block + 1) * 512 ∧
      (u.transfer d.lhBuf 0 512).2.uioResid = 0 := by
    simp only [Uio.transfer, hrw, h.offset, h.resid]
    omega
  have hbuf : ∀ k < 512, (u.transfer d.lhBuf 0 512).1 k = u.bytes.getD k 0 := by
    intro k hk
    simp only [Uio.transfer, hrw, moveBytes]
    rw [if_pos ⟨Nat.zero_le k, by omega⟩, Nat.sub_zero, Nat.zero_add]
  unfold request
  cases hout : d.outcome 0 with
  | true =>
    refine ⟨_, _, rfl, rfl, rfl, fun k hk _ => ?_, fun h => ?_, hu.1, hu.2, rfl⟩
    · dsimp only
      rw [Function.update_self, hbuf k hk]
    · cases h
  | false =>
    refine ⟨_, _, rfl, rfl, rfl, fun k hk h => ?_, fun _ => rfl, hu.1, hu.2, rfl⟩
    cases h

/-- A call that is asked for nothing. -/
theorem lhdIo_nothing (hoff : u.uioOffset = (block + 1) * 512) (hres : u.uioResid = 0)
    (hb : block < d.dBlocks) (hd : d.dBlocks < 2 ^ 32) :
    lhdIo (d, u) = .ok (.ok (), ({ d with calls := d.calls + 1 }, u)) := by
  have hdiv : word32 (u.uioOffset / 512) = block + 1 := by
    rw [hoff, Nat.mul_div_cancel _ (by decide)]
    exact Nat.mod_eq_of_lt (by omega)
  have hin : ¬d.dBlocks < word32 (block + 1 + 0) := by
    rw [word32, Nat.mod_eq_of_lt (by omega)]
    omega
  unfold lhdIo
  rw [modify_bind_apply, get_bind_apply]
  rw [hdiv, hres, hoff, if_neg (by omega), Nat.zero_div, if_neg hin]
  rfl

/-! ## Retries -/

theorem onResult_eio (retry : LhdM Unit) : onResult retry (.error Errno.EIO) = retry := by
  change (if Errno.EIO = .EINVAL then Call.stop ioPanic
    else if Errno.EIO = Errno.EIO then retry else Call.fail Errno.EIO) = retry
  rw [if_neg (by decide), if_pos rfl]

theorem rwblockLoop_of_ok {left : ℕ} {p p' : Lhd × Uio} (h : lhdIo p = .ok (.ok (), p')) :
    rwblockLoop left p = .ok (.ok (), p') := by
  cases left with
  | zero | succ left => exact bind_of_ok (attempt_of_ok h)

theorem rwblockLoop_of_eio {left : ℕ} {p p' : Lhd × Uio}
    (h : lhdIo p = .ok (.error Errno.EIO, p')) :
    rwblockLoop (left + 1) p = rwblockLoop left p' := by
  change (lhdIo.attempt >>= onResult (rwblockLoop left)) p = _
  rw [bind_of_ok (attempt_of_ok h), onResult_eio]

theorem rwblockLoop_zero_of_eio {p p' : Lhd × Uio} (h : lhdIo p = .ok (.error Errno.EIO, p')) :
    rwblockLoop 0 p = .ok (.error Errno.EIO, p') := by
  unfold rwblockLoop
  rw [bind_of_ok (attempt_of_ok h), onResult_eio]
  rfl

/-- The loop for a read : the bytes of the sector at the first success, or `EIO`. -/
theorem rwblockLoop_read : ∀ (left : ℕ) (d : Lhd), AtSector d u block → u.uioRw = .read →
    ∃ r d' u', rwblockLoop left (d, u) = .ok (r, (d', u')) ∧ d'.sectors = d.sectors ∧
      d'.calls ≤ d.calls + (left + 1) ∧ match r with
      | .ok _ => (∃ j ≤ left, d.outcome j = true) ∧
          u'.bytes = u.bytes ++ Uio.slice (d.sectors block) 0 512
      | .error e => e = Errno.EIO ∧ ∀ j ≤ left, d.outcome j = false
  | left, d, h, hrw => by
    obtain ⟨hok, herr⟩ := lhdIo_read h hrw
    cases hout : d.outcome 0 with
    | true =>
      obtain ⟨d', u', hrun, hs, hc, hb⟩ := hok hout
      exact ⟨.ok (), d', u', rwblockLoop_of_ok hrun, hs, by omega, ⟨0, Nat.zero_le _, hout⟩, hb⟩
    | false =>
      cases left with
      | zero =>
        refine ⟨_, _, _, rwblockLoop_zero_of_eio (herr hout), rfl, le_rfl, rfl, fun j hj => ?_⟩
        rw [Nat.le_zero.mp hj, hout]
      | succ left =>
        obtain ⟨r, d', u', hrun, hs, hc, hpost⟩ := rwblockLoop_read left (d.after 1) (h.after 1) hrw
        rw [rwblockLoop_of_eio (herr hout)]
        refine ⟨r, d', u', hrun, hs, hc.trans (by simp only [Lhd.after]; omega), ?_⟩
        cases r with
        | ok _ =>
          obtain ⟨⟨j, hj, hj'⟩, hb⟩ := hpost
          exact ⟨⟨1 + j, by omega, hj'⟩, hb⟩
        | error e =>
          refine ⟨hpost.1, fun j hj => ?_⟩
          cases j with
          | zero => exact hout
          | succ j =>
            have := hpost.2 j (by omega)
            rwa [show j + 1 = 1 + j by omega]

/-- A write ends with the first or the second call of `lhd_io`, and always with `0`. -/
theorem sfsRwblock_write (h : AtSector d u block) (hrw : u.uioRw = .write) :
    ∃ d' u', sfsRwblock (d, u) = .ok (.ok (), (d', u')) ∧ d'.calls ≤ d.calls + 2 ∧
      (∀ k < 512, d.outcome 0 = true → d'.sectors block k = u.bytes.getD k 0) ∧
      (d.outcome 0 = false → d'.sectors = d.sectors) := by
  obtain ⟨d', u', hrun, hdb, hc, hw, hs, hoff, hres, -⟩ := lhdIo_write h hrw
  cases hout : d.outcome 0 with
  | true =>
    rw [if_pos hout] at hrun
    exact ⟨d', u', rwblockLoop_of_ok hrun, by omega, fun k hk _ => hw k hk hout, by simp⟩
  | false =>
    rw [if_neg (by simp [hout])] at hrun
    have hlt : block < d'.dBlocks := hdb ▸ h.lt
    have hagain := lhdIo_nothing hoff hres hlt (hdb ▸ h.dev)
    refine ⟨{ d' with calls := d'.calls + 1 }, u', ?_, by dsimp only; omega, by simp,
      fun _ => hs hout⟩
    unfold sfsRwblock
    rw [rwblockLoop_of_eio hrun, rwblockLoop_of_ok hagain]

/-- A read that returns `0` has the bytes of the block. There are eleven calls at most, and `EIO`
after as many failures. -/
def ReadOk (d : Lhd) (block : ℕ) : Prop :=
  ∃ r d', sfsReadblock block d = .ok (r, d') ∧ d'.calls ≤ d.calls + 11 ∧
    (∀ buf, r = .ok buf → buf = Uio.slice (d'.sectors block) 0 512) ∧
    ((∀ j ≤ 10, d.outcome j = false) → r = .error Errno.EIO)

/-- A write that returns `0` has written the data. There are eleven calls at most, and `EIO`
after as many failures. -/
def WriteOk (d : Lhd) (block : ℕ) (data : DiskBlock) : Prop :=
  ∃ r d', sfsWriteblock block data d = .ok (r, d') ∧ d'.calls ≤ d.calls + 11 ∧
    (r = .ok () → ∀ k < 512, d'.sectors block k = data k) ∧
    ((∀ j ≤ 10, d.outcome j = false) → r = .error Errno.EIO)

/-- One of the requests succeeds, or all fail. -/
theorem answered_or_failed (d : Lhd) (n : ℕ) :
    (∃ j ≤ n, d.outcome j = true) ∨ ∀ j ≤ n, d.outcome j = false := by
  by_cases h : ∃ j ≤ n, d.outcome j = true
  · exact Or.inl h
  · refine Or.inr fun j hj => ?_
    by_contra hout
    exact h ⟨j, hj, Bool.eq_true_of_not_eq_false hout⟩

/-- A read of a block is one request that is answered if one of eleven is. -/
theorem sfsReadblock_run (hb : block < d.dBlocks) (hd : d.dBlocks < 2 ^ 32) :
    ∃ r d', sfsReadblock block d = .ok (r, d') ∧ d'.sectors = d.sectors ∧
      d'.calls ≤ d.calls + 11 ∧
      ((∃ j ≤ 10, d.outcome j = true) → r = .ok (Uio.slice (d.sectors block) 0 512)) ∧
      ((∀ j ≤ 10, d.outcome j = false) → r = .error Errno.EIO) := by
  obtain ⟨r, d', u', hrun, hs, hc, hpost⟩ :=
    rwblockLoop_read 10 d (atSector_sfsuio hb hd [] .read) rfl
  have hread : sfsReadblock block d = .ok (r.map fun _ => u'.bytes, d') := by
    unfold sfsReadblock sfsRwblock
    rw [hrun]
    rfl
  refine ⟨_, d', hread, hs, hc, ?_, ?_⟩
  · rintro ⟨j, hj, hout⟩
    cases r with
    | ok _ => exact congrArg Except.ok (hpost.2.trans (List.nil_append _))
    | error e => simp [hpost.2 j hj] at hout
  · intro hno
    cases r with
    | ok _ =>
      obtain ⟨⟨j, hj, hout⟩, -⟩ := hpost
      simp [hno j hj] at hout
    | error e =>
      rw [hpost.1]
      rfl

/-- What `Sfs` takes a read to be : the same result, from the same disk, if the next answer there
says whether one of eleven requests succeeds. -/
theorem sfsReadblock_eq_abstract {s : Sfs} (hb : block < d.dBlocks) (hd : d.dBlocks < 2 ^ 32)
    (hblocks : s.dBlocks = d.dBlocks) (hdisk : s.disk = d.sectors)
    (hio : s.io 0 = true ↔ ∃ j ≤ 10, d.outcome j = true) :
    ∃ r d', OS161.sfsReadblock block s = .ok (r, s.ioDone) ∧
      sfsReadblock block d = .ok (r.map (Uio.slice · 0 512), d') ∧ d'.sectors = s.disk := by
  obtain ⟨r, d', hrun, hs, -, hok, heio⟩ := sfsReadblock_run hb hd
  refine ⟨_, d', sfsReadblock_eq (hblocks ▸ hb), ?_, hs.trans hdisk.symm⟩
  rcases d.answered_or_failed 10 with hj | hno
  · rw [hrun, hok hj, if_pos (hio.mpr hj), hdisk]
    rfl
  · rw [hrun, heio hno, if_neg fun h => ?_]
    · rfl
    · obtain ⟨j, hj, hout⟩ := hio.mp h
      simp [hno j hj] at hout

theorem readOk (hb : block < d.dBlocks) (hd : d.dBlocks < 2 ^ 32) : d.ReadOk block := by
  obtain ⟨r, d', hrun, hs, hc, hok, heio⟩ := sfsReadblock_run hb hd
  refine ⟨r, d', hrun, hc, fun buf hbuf => ?_, heio⟩
  rcases d.answered_or_failed 10 with hj | hno
  · rw [hok hj] at hbuf
    rw [hs]
    exact (Except.ok.inj hbuf).symm
  · rw [heio hno] at hbuf
    cases hbuf

end Lhd

/-- Reads and writes of blocks do what they report exactly if the first request of the write
succeeds, or the block is the data already and not all of eleven requests fail. -/
theorem block_io_iff {d : Lhd} {block : ℕ} {data : DiskBlock} (hb : block < d.dBlocks)
    (hd : d.dBlocks < 2 ^ 32) :
    d.ReadOk block ∧ d.WriteOk block data ↔ d.outcome 0 = true ∨
      (∀ k < 512, d.sectors block k = data k) ∧ ∃ j ≤ 10, d.outcome j = true := by
  rw [and_iff_right (Lhd.readOk hb hd)]
  obtain ⟨bytes, hslice⟩ : ∃ bytes, bytes = Uio.slice data 0 512 := ⟨_, rfl⟩
  obtain ⟨d', u', hrun, hc, hw, hs⟩ := Lhd.sfsRwblock_write
    (Lhd.atSector_sfsuio hb hd bytes .write) rfl
  have hwrite : Lhd.sfsWriteblock block data d = .ok (.ok (), d') := by
    unfold Lhd.sfsWriteblock
    rw [← hslice, hrun]
    rfl
  have hbytes : ∀ k < 512, bytes.getD k 0 = data k := by
    intro k hk
    rw [hslice, Uio.getD_slice hk, Nat.zero_add]
  constructor
  · rintro ⟨r, d'', hrun', -, hdata, heio⟩
    rw [hwrite] at hrun'
    cases hrun'
    by_cases hout : d.outcome 0 = true
    · exact Or.inl hout
    · refine Or.inr ⟨fun k hk => ?_, ?_⟩
      · rw [← hdata rfl k hk, hs (Bool.eq_false_iff.mpr hout)]
      · exact (d.answered_or_failed 10).resolve_right fun hno => absurd (heio hno) (by simp)
  · intro h
    refine ⟨.ok (), d', hwrite, by omega, fun _ k hk => ?_, fun hno => ?_⟩
    · cases hout : d.outcome 0 with
      | true => exact (hw k hk hout).trans (hbytes k hk)
      | false =>
        rw [hs hout]
        exact (h.resolve_left (by simp [hout])).1 k hk
    · rcases h with h | ⟨-, j, hj, h⟩
      · rw [hno 0 (by decide)] at h
        cases h
      · rw [hno j hj] at h
        cases h

/-- A disk of four sectors of zeros. -/
def Lhd.zeros (outcome : ℕ → Bool) : Lhd :=
  ⟨4, fun _ => zeroBlock, zeroBlock, outcome, 0⟩

/-- A volume of four blocks with their numbers in them. -/
def Sfs.numbered : Sfs :=
  ⟨⟨4, bitmapCreate 4, false, [], 4, fun b _ => .ofNat b⟩, fun _ => true, fun _ => true, 0, [], []⟩

/-- The same blocks on a disk on which three requests fail. -/
theorem sfsReadblock_eq_abstract_retried : ∃ d' : Lhd,
    sfsReadblock 2 .numbered = .ok (.ok fun _ => 2, Sfs.ioDone .numbered) ∧
    Lhd.sfsReadblock 2 ⟨4, fun b _ => .ofNat b, zeroBlock, fun n => 3 ≤ n, 0⟩ =
      .ok (.ok (Uio.slice (fun _ => 2) 0 512), d') ∧ d'.sectors = Sfs.numbered.disk := by
  have hread : sfsReadblock 2 .numbered = .ok (.ok fun _ => 2, Sfs.ioDone .numbered) := rfl
  obtain ⟨r, d', habs, hrun, hs⟩ := Lhd.sfsReadblock_eq_abstract (s := .numbered)
    (d := ⟨4, fun b _ => .ofNat b, zeroBlock, fun n => 3 ≤ n, 0⟩) (show 2 < 4 by decide)
    (show 4 < 2 ^ 32 by decide) rfl rfl ⟨fun _ => ⟨3, by decide, rfl⟩, fun _ => rfl⟩
  rw [hread] at habs
  cases habs
  exact ⟨d', hread, hrun, hs⟩

theorem block_io_iff_works : (Lhd.zeros fun _ => true).ReadOk 2 ∧
    (Lhd.zeros fun _ => true).WriteOk 2 fun _ => 7 :=
  (block_io_iff (show 2 < 4 by decide) (show 4 < 2 ^ 32 by decide)).mpr (Or.inl rfl)

/-- The request for the write fails. `sfs_writeblock` returns `0` after two calls of `lhd_io`, and
the block is as it was. -/
theorem write_lost : (Lhd.sfsWriteblock 2 (fun _ => 7) (.zeros fun _ => false)).toOption.map
    (fun r => (r.1.toOption, r.2.calls, r.2.sectors 2 0)) = some (some (), 2, 0) := by
  decide +kernel

end OS161
