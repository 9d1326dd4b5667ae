import OS161.SfsDirCalls
import OS161.SfsOffsets

/-!
# Reading and writing files

`sfs_io` moves bytes between a file and a uio in pieces : the end of a block, whole blocks, and
the beginning of one. `Moved` says what has happened when some bytes have been moved : to the
bytes of the file and to the uio the same as if `uiomove` had moved them at once, the file being
the buffer (`Uio.transfer`). `Moved.trans` puts two pieces together, and `Piece.bind` the calls
that move them.

`sfsIo_write_does` and `sfsIo_read_does` are the specifications of `sfs_io`. They hold whatever
the device answers; the bytes are as they should be if it answers every request, and if the
position has no more than 41 bits. The volume has at most `2 ^ 23` blocks, so that the positions
on the device have 32 bits.
-/

namespace OS161

open Sfs Volume

/-! ## The bytes of a block as bytes of a file -/

namespace Uio

variable {u : Uio} {n ptr ptr' : ℕ} {buf buf' : ℕ → UInt8}

theorem transfer_offset (u : Uio) (buf : ℕ → UInt8) (ptr n : ℕ) :
    (u.transfer buf ptr n).2.uioOffset = u.uioOffset + n := by
  unfold transfer
  cases u.uioRw <;> rfl

theorem transfer_rw (u : Uio) (buf : ℕ → UInt8) (ptr n : ℕ) :
    (u.transfer buf ptr n).2.uioRw = u.uioRw := by
  unfold transfer
  cases u.uioRw <;> rfl

/-- The uio sees the bytes that are moved, and not where they are. -/
theorem transfer_congr (h : ∀ x < n, buf (ptr + x) = buf' (ptr' + x)) :
    (u.transfer buf ptr n).2 = (u.transfer buf' ptr' n).2 := by
  have hslice : slice buf ptr n = slice buf' ptr' n :=
    List.map_congr_left fun x hx => h x (List.mem_range.mp hx)
  unfold transfer
  cases u.uioRw with
  | read => simp only [hslice]
  | write => rfl

/-- A transfer does not look at the iovecs. -/
theorem transfer_iov (u : Uio) (iov : List ℕ) (buf : ℕ → UInt8) (ptr n : ℕ) :
    { u with uioIov := iov }.transfer buf ptr n =
      ((u.transfer buf ptr n).1, { (u.transfer buf ptr n).2 with uioIov := iov }) := by
  unfold transfer
  cases u.uioRw <;> rfl

end Uio

/-- A transfer to a block of a file is one to the bytes of the file. -/
theorem FileView.setBlock_transfer {f : FileView} {w : DiskBlock} {fb skip len : ℕ} (u : Uio)
    (hlen : skip + len ≤ 512) (hw : ∀ x < 512, f.byte (fb * 512 + x) = w x) :
    f.setBlock fb (u.transfer w skip len).1 =
      { f with byte := (u.transfer f.byte (fb * 512 + skip) len).1 } := by
  refine FileView.ext rfl rfl rfl (funext fun off => ?_)
  have hin : off / 512 = fb → f.byte off = w (off % 512) := by
    rintro rfl
    rw [← hw (off % 512) (Nat.mod_lt _ (by decide)), Nat.div_add_mod']
  change (if off / 512 = fb then (u.transfer w skip len).1 (off % 512) else f.byte off) =
    (u.transfer f.byte (fb * 512 + skip) len).1 off
  unfold Uio.transfer
  cases u.uioRw with
  | read =>
    split_ifs with hoff
    · exact (hin hoff).symm
    · rfl
  | write =>
    simp only [moveBytes]
    by_cases hoff : off / 512 = fb
    · rw [if_pos hoff]
      refine if_congr ?_ (congrArg (fun x => u.bytes.getD x 0) ?_) (hin hoff).symm <;> omega
    · rw [if_neg hoff, if_neg (by omega)]

/-! ## Pieces of a transfer -/

variable {ok : Halt → Prop} {s s' s'' : Sfs} {u u' u'' : Uio} {loose : Set ℕ}
  {b i k k' n n' fb : ℕ} {p q : Sfs × Uio}

/-- The positions of the transfer have 41 bits. -/
def Uio.Near (u : Uio) : Prop :=
  u.uioOffset + u.uioResid ≤ 2 ^ 41

/-- So many bytes have been moved between file `i` and the uio. -/
structure Moved (i : ℕ) (loose : Set ℕ) (s : Sfs) (u : Uio) (k : ℕ) (s' : Sfs) (u' : Uio) :
    Prop where
  offset : u'.uioOffset = u.uioOffset + k
  resid : u'.uioResid + k = u.uioResid
  rw : u'.uioRw = u.uioRw
  room : u'.uioResid ≤ u'.uioIov.sum
  /-- A write ends before the end of the largest file. -/
  limit : u.Near → u.uioRw = .write → 0 < k → u.uioOffset + k ≤ 143 * 512
  content : ∃ byte, Shows s loose (s.abs.setFile i { s.abs.file i with byte := byte }) s' ∧
    (s.IoOk → u.Near → byte = (u.transfer (s.abs.file i).byte u.uioOffset k).1 ∧
      u'.bytes = (u.transfer (s.abs.file i).byte u.uioOffset k).2.bytes)

namespace Moved

theorem zero (hq : Quiet s loose s') (hres : u.uioResid < 2 ^ 32)
    (hroom : u.uioResid ≤ u.uioIov.sum) : Moved i loose s u 0 s' u := by
  refine ⟨rfl, rfl, rfl, hroom, fun _ _ h => absurd h (lt_irrefl 0), (s.abs.file i).byte, ?_, ?_⟩
  · rw [Fs.setFile_self]
    exact hq
  · rw [Uio.transfer_zero hres]
    exact fun _ _ => ⟨rfl, rfl⟩

/-- One piece after the other. -/
theorem trans (h : Moved i loose s u k s' u') (h' : Moved i loose s' u' k' s'' u'')
    (hres : u.uioResid < 2 ^ 32) : Moved i loose s u (k + k') s'' u'' := by
  have hnear : u.Near → u'.Near := fun hn => by
    have h1 := h.offset
    have h2 := h.resid
    unfold Uio.Near at *
    omega
  obtain ⟨byte, hs, hc⟩ := h.content
  obtain ⟨byte', hs', hc'⟩ := h'.content
  have hfile : s'.abs.file i = { s.abs.file i with byte := byte } := by
    rw [hs.abs, Fs.setFile_file]
  refine ⟨by rw [h'.offset, h.offset, Nat.add_assoc], ?_, h'.rw.trans h.rw, h'.room,
    fun hn hw hpos => ?_, byte', ?_, fun hio hn => ?_⟩
  · have h1 := h.resid
    have h2 := h'.resid
    omega
  · have hoff := h.offset
    rcases Nat.eq_zero_or_pos k' with rfl | hk'
    · exact h.limit hn hw hpos
    · have := h'.limit (hnear hn) (h.rw.trans hw) hk'
      omega
  · have hall := hs.trans hs'
    rw [hfile, hs.abs, Fs.setFile_setFile] at hall
    exact hall
  · obtain ⟨hb, hu⟩ := hc hio hn
    obtain ⟨hb', hu'⟩ := hc' (hs.next.io hio) (hnear hn)
    have hk : k + k' ≤ u.uioResid := by
      have h1 := h.resid
      have h2 := h'.resid
      omega
    -- The uio in between is the one after the first transfer.
    have hmid : u' = { (u.transfer (s.abs.file i).byte u.uioOffset k).2 with
        uioIov := u'.uioIov } := by
      have hr := Uio.uioResid_transfer (s.abs.file i).byte u.uioOffset hres
        (show k ≤ u.uioResid by omega)
      have ho := Uio.transfer_offset u (s.abs.file i).byte u.uioOffset k
      have hw := Uio.transfer_rw u (s.abs.file i).byte u.uioOffset k
      have h1 := h.resid
      rcases u' with ⟨iov, off, res, rw, bytes⟩
      simp only [Uio.mk.injEq, true_and]
      exact ⟨h.offset.trans ho.symm, by dsimp only at h1; omega, h.rw.trans hw.symm, hu⟩
    have htr := Uio.transfer_iov (u.transfer (s.abs.file i).byte u.uioOffset k).2 u'.uioIov byte
      u'.uioOffset k'
    rw [← hmid, hb, h.offset, Uio.transfer_add hres hk] at htr
    rw [hfile] at hb' hu'
    rw [hb, h.offset, htr] at hb' hu'
    exact ⟨hb', hu'⟩

/-- A piece that is moved by one call of `uiomove`. -/
theorem of_transfer (byte : ℕ → UInt8) {buf : ℕ → UInt8} {ptr : ℕ} {iov : List ℕ}
    (hres : u.uioResid < 2 ^ 32) (hn : n ≤ u.uioResid) (hroom : u.uioResid ≤ u.uioIov.sum)
    (hiov : iov.sum = u.uioIov.sum - n)
    (hlimit : u.Near → u.uioRw = .write → u.uioOffset + n ≤ 143 * 512)
    (hs : Shows s loose (s.abs.setFile i { s.abs.file i with byte := byte }) s')
    (hbyte : s.IoOk → u.Near → byte = (u.transfer (s.abs.file i).byte u.uioOffset n).1)
    (hbuf : u.Near → ∀ x < n, buf (ptr + x) = (s.abs.file i).byte (u.uioOffset + x)) :
    Moved i loose s u n s' { (u.transfer buf ptr n).2 with uioIov := iov } := by
  have hr := Uio.uioResid_transfer buf ptr hres hn
  refine ⟨Uio.transfer_offset u buf ptr n, ?_, Uio.transfer_rw u buf ptr n, ?_,
    fun hnear hw _ => hlimit hnear hw, byte, hs, fun hio hnear => ⟨hbyte hio hnear, ?_⟩⟩
  · dsimp only
    omega
  · dsimp only
    omega
  · have hu : (u.transfer buf ptr n).2 = _ := Uio.transfer_congr (hbuf hnear)
    have hb := congrArg Uio.bytes hu
    exact hb

end Moved

/-- A transfer of file `i` can go on. -/
structure Ready (i : ℕ) (loose : Set ℕ) (p : Sfs × Uio) : Prop where
  ok : p.1.Ok loose
  refs : p.1.abs.refs i ≠ 0
  file : i ≠ 1
  nblocks : p.1.sbNblocks ≤ 2 ^ 23
  resid : p.2.uioResid < 2 ^ 32
  room : p.2.uioResid ≤ p.2.uioIov.sum

theorem Moved.ready (h : Moved i loose p.1 p.2 k q.1 q.2) (hp : Ready i loose p) :
    Ready i loose q := by
  obtain ⟨byte, hs, -⟩ := h.content
  have hres := h.resid
  have hlt := hp.resid
  refine ⟨hs.ok, ?_, hp.file, ?_, by omega, h.room⟩
  · rw [hs.abs]
    exact hp.refs
  · have : q.1.abs.nblocks = p.1.abs.nblocks := by
      rw [hs.abs]
      rfl
    exact this.trans_le hp.nblocks

/-- A call has moved `n` bytes, or fewer if it returns an error. A read of bytes in the largest
file returns none if the device works. -/
structure Piece (i : ℕ) (loose : Set ℕ) (n : ℕ) (p : Sfs × Uio) (r : Except Errno Unit)
    (q : Sfs × Uio) : Prop where
  moved : ∃ k ≤ n, (r = .ok () → k = n) ∧ Moved i loose p.1 p.2 k q.1 q.2
  reads : p.1.IoOk → p.2.uioRw = .read → p.2.uioOffset + n ≤ 143 * 512 → r = .ok ()

namespace Piece

theorem of_ok (h : Moved i loose p.1 p.2 n q.1 q.2) : Piece i loose n p (.ok ()) q :=
  ⟨⟨n, le_rfl, fun _ => rfl, h⟩, fun _ _ _ => rfl⟩

theorem of_error {e : Errno} (hk : k ≤ n) (h : Moved i loose p.1 p.2 k q.1 q.2)
    (hr : p.1.IoOk → p.2.uioRw = .read → ¬p.2.uioOffset + n ≤ 143 * 512) :
    Piece i loose n p (.error e) q :=
  ⟨⟨k, hk, by simp, h⟩, fun hio hrd hle => absurd hle (hr hio hrd)⟩

theorem moved_of_ok (h : Piece i loose n p (.ok ()) q) : Moved i loose p.1 p.2 n q.1 q.2 := by
  obtain ⟨k, -, hk, hm⟩ := h.moved
  rwa [hk rfl] at hm

/-- A piece that ended early is part of a larger one. -/
theorem widen {e : Errno} (h : Piece i loose n p (.error e) q) (hle : n ≤ n') :
    Piece i loose n' p (.error e) q := by
  obtain ⟨k, hk, -, hm⟩ := h.moved
  refine of_error (hk.trans hle) hm fun hio hrd hle' => ?_
  exact absurd (h.reads hio hrd (by omega)) (by simp)

/-- What comes after a piece. -/
theorem after {r : Except Errno Unit} {q' : Sfs × Uio} (h' : Piece i loose n' q r q')
    (h : Moved i loose p.1 p.2 n q.1 q.2) (hres : p.2.uioResid < 2 ^ 32) :
    Piece i loose (n + n') p r q' := by
  obtain ⟨k, hk, hok, hm⟩ := h'.moved
  obtain ⟨byte, hs, -⟩ := h.content
  refine ⟨⟨n + k, by omega, fun hr => by rw [hok hr], h.trans hm hres⟩, fun hio hrd hle => ?_⟩
  refine h'.reads (hs.next.io hio) (h.rw.trans hrd) ?_
  rw [h.offset]
  omega

/-- Sequential composition. -/
theorem bind {m : UioM Unit} {f : Unit → UioM Unit} (hp : p.2.uioResid < 2 ^ 32)
    (hm : m.Does ok p (Piece i loose n p))
    (hf : ∀ q, Moved i loose p.1 p.2 n q.1 q.2 → (f ()).Does ok q (Piece i loose n' q)) :
    (m >>= f).Does ok p (Piece i loose (n + n') p) := by
  refine Call.Does.bind hm (fun e q h => h.widen (Nat.le_add_right n n')) fun _ q h => ?_
  exact (hf q h.moved_of_ok).mono fun r q' h' => h'.after h.moved_of_ok hp

end Piece

/-- A call of the file system within a transfer. -/
theorem does_onFs {α : Type} {m : SfsM α} {P : Except Errno α → Sfs → Prop} (u : Uio)
    (h : m.Does ok s P) : (onFs m).Does ok (s, u) fun r p => P r p.1 ∧ p.2 = u :=
  Meets.bind h fun _ hr => ⟨hr, rfl⟩

/-! ## The block at the position of a uio -/

/-- `sfs_bmap` has found block `b` at the position of the uio. -/
structure Located (i : ℕ) (loose : Set ℕ) (s : Sfs) (u : Uio) (b : ℕ) (s' : Sfs) : Prop where
  quiet : Quiet s loose s'
  live : s'.Live i
  ptr : s'.ptr i (word32 (u.uioOffset / 512)) = b
  write : u.uioRw = .write → b ≠ 0

/-- What a piece does after it has looked for its block. -/
theorem bmap_piece {f : ℕ → UioM Unit} (hp : Ready i loose (s, u))
    (hpos : 0 < u.uioOffset % 512 + n)
    (hf : ∀ b s₁, Located i loose s u b s₁ → (f b).Does ok (s₁, u) (Piece i loose n (s, u))) :
    (onFs (sfsBmap i (word32 (u.uioOffset / 512)) (u.uioRw = .write)) >>= f).Does ok (s, u)
      (Piece i loose n (s, u)) := by
  obtain ⟨sv, hi⟩ := Ok.exists_loaded hp.refs
  refine (does_onFs u (sfsBmap_does hp.ok hi)).bind ?_ ?_
  · rintro e ⟨s₁, u₁⟩ ⟨⟨hq, -, herr⟩, hu⟩
    obtain rfl : u₁ = u := hu
    refine .of_error (Nat.zero_le _) (.zero hq hp.resid hp.room) fun hio hrd => ?_
    dsimp only at hrd hio ⊢
    rcases herr hio with hbig | hbig
    · unfold word32 at hbig
      omega
    · simp [hrd] at hbig
  · rintro b ⟨s₁, u₁⟩ ⟨⟨hq, -, hptr, hb⟩, hu⟩
    obtain rfl : u₁ = u := hu
    refine hf b s₁ ⟨hq, (hq.live hp.ok).mpr (live_of_loaded hi), hptr, fun hw => hb ?_⟩
    simp [hw]

namespace Located

variable {skip : ℕ} {iov : List ℕ}

theorem read_of_zero (h : Located i loose s u 0 s') : u.uioRw = .read := by
  cases hrw : u.uioRw with
  | read => rfl
  | write => exact absurd rfl (h.write hrw)

theorem lt_device (h : Located i loose s u b s') (h0 : b ≠ 0) : b < s'.dBlocks :=
  h.quiet.ok.lt_device (show s'.Ref (.data i _) b from ⟨h.live, h0, h.ptr⟩)

theorem lt_nblocks (h : Located i loose s u b s') (h0 : b ≠ 0) : b < s'.sbNblocks :=
  h.quiet.ok.lt_of_ref (show s'.Ref (.data i _) b from ⟨h.live, h0, h.ptr⟩)

/-- The bytes of the block are bytes of the file. -/
theorem byte_eq (h : Located i loose s u b s') {x : ℕ} (hx : x < 512) :
    (s.abs.file i).byte (word32 (u.uioOffset / 512) * 512 + x) =
      if b = 0 then 0 else s'.disk b x := by
  have hdiv : (word32 (u.uioOffset / 512) * 512 + x) / 512 = word32 (u.uioOffset / 512) := by
    omega
  have hmod : (word32 (u.uioOffset / 512) * 512 + x) % 512 = x := by omega
  rw [← h.quiet.abs, byte_of_live h.live, hdiv, hmod, h.ptr]

/-- A near position is that of the block. -/
theorem position (hn : u.Near) (hpos : 0 < skip + n) (hskip : skip = u.uioOffset % 512)
    (hle : n ≤ u.uioResid) : word32 (u.uioOffset / 512) * 512 + skip = u.uioOffset := by
  unfold Uio.Near at hn
  unfold word32
  omega

theorem limit (h : Located i loose s u b s') (h0 : b ≠ 0) (hn : u.Near) (hpos : 0 < skip + n)
    (hskip : skip = u.uioOffset % 512) (hlen : skip + n ≤ 512) (hle : n ≤ u.uioResid) :
    u.uioOffset + n ≤ 143 * 512 := by
  have := lt_of_filePtr_ne_zero (h.ptr.trans_ne h0)
  have := position hn hpos hskip hle
  omega

/-- Bytes are moved, and the file stays as it is. -/
theorem moved (h : Located i loose s u b s') (hp : Ready i loose (s, u)) (hpos : 0 < skip + n)
    (hskip : skip = u.uioOffset % 512) (hlen : skip + n ≤ 512) (hle : n ≤ u.uioResid)
    (iov : List ℕ) (hiov : iov.sum = u.uioIov.sum - n) (s'' : Sfs) (hq : Quiet s loose s'')
    (hrd : s.IoOk → u.uioRw = .read) : Moved i loose s u n s''
      { (u.transfer (if b = 0 then zeroBlock else s'.disk b) skip n).2 with uioIov := iov } := by
  refine .of_transfer (s.abs.file i).byte hp.resid hle hp.room hiov (fun hn hw => ?_) ?_
    (fun hio _ => ?_) fun hn x hx => ?_
  · exact h.limit (h.write hw) hn hpos hskip hlen hle
  · rw [Fs.setFile_self]
    exact hq
  · simp only [Uio.transfer, hrd hio]
  · rw [← position hn hpos hskip hle, Nat.add_assoc, h.byte_eq (by omega)]
    split_ifs <;> rfl

/-- The block is written. -/
theorem moved_write (h : Located i loose s u b s') (hp : Ready i loose (s, u))
    (hpos : 0 < skip + n) (h0 : b ≠ 0) (hskip : skip = u.uioOffset % 512)
    (hlen : skip + n ≤ 512) (hle : n ≤ u.uioResid)
    (hiov : iov.sum = u.uioIov.sum - n)
    (hvol : s''.toVolume = s'.setDisk b (u.transfer (s'.disk b) skip n).1)
    (hleak : s''.leaked = s'.leaked) (hnext : Next s s'') : Moved i loose s u n s''
      { (u.transfer (s'.disk b) skip n).2 with uioIov := iov } := by
  have hset := FileView.setBlock_transfer (f := s.abs.file i) u hlen fun x hx =>
    (h.byte_eq hx).trans (if_neg h0)
  obtain ⟨hphys, habs, href⟩ := h.quiet.ok.writeData (w := (u.transfer (s'.disk b) skip n).1)
    h.live h.ptr h0 fun h1 => absurd h1 hp.file
  rw [← abs_file (v := s'.toVolume) h.live, h.quiet.abs, hset, ← hvol] at habs
  rw [← hvol] at hphys href
  refine .of_transfer _ hp.resid hle hp.room hiov (fun hn _ => ?_) ⟨?_, habs, hnext, ?_⟩
    (fun _ hn => ?_) fun hn x hx => ?_
  · exact h.limit h0 hn hpos hskip hlen hle
  · unfold Ok
    rw [hleak]
    exact hphys
  · exact h.quiet.grows.trans (.of_iff href)
  · rw [position hn hpos hskip hle]
  · rw [← position hn hpos hskip hle, Nat.add_assoc, h.byte_eq (by omega), if_neg h0]

end Located

/-! ## Parts of blocks -/

theorem sfsPartialio_piece {skip : ℕ} (hp : Ready i loose (s, u))
    (hskip : skip = u.uioOffset % 512) (hpos : 0 < skip + n) (hlen : skip + n ≤ 512)
    (hle : n ≤ u.uioResid) :
    (sfsPartialio i skip n).Does ok (s, u) (Piece i loose n (s, u)) := by
  unfold sfsPartialio
  rw [Call.does_get_bind, Call.does_lift_bind (kassert_pos hlen _)]
  refine bmap_piece hp (hskip ▸ hpos) fun b s₁ hl => ?_
  have hq₁ := hl.quiet.ioDone
  have hmoved := hl.moved hp hpos hskip hlen hle
  by_cases h0 : b = 0
  · subst h0
    have hrd := hl.read_of_zero
    rw [if_pos rfl, Call.does_lift_bind (kassert_pos hrd _)]
    obtain ⟨iov, hiov, hmove⟩ := uiomove_eq zeroBlock skip hp.resid hle hp.room
    have hmv : moveUio zeroBlock skip n (s₁, u) = .ok (.ok _, (s₁, _)) :=
      congrArg (· >>= _) hmove
    rw [Call.does_bind_of_ok hmv]
    exact Piece.of_ok (hmoved _ hiov _ hl.quiet fun _ => hrd)
  · rw [if_neg h0]
    simp only [if_neg h0] at hmoved
    have hrd := sfsReadblock_eq (hl.lt_device h0)
    split_ifs at hrd with hio
    · rw [Call.does_bind_of_ok (onFs_eq hrd u)]
      obtain ⟨iov, hiov, hmove⟩ := uiomove_eq (s₁.disk b) skip hp.resid hle hp.room
      have hmv : moveUio (s₁.disk b) skip n (s₁.ioDone, u) = .ok (.ok _, (s₁.ioDone, _)) :=
        congrArg (· >>= _) hmove
      rw [Call.does_bind_of_ok hmv]
      cases hrw : u.uioRw with
      | read =>
        exact Piece.of_ok (hmoved _ hiov _ hq₁ fun _ => hrw)
      | write =>
        have hwr := sfsWriteblock_eq (s := s₁.ioDone) (w := (u.transfer (s₁.disk b) skip n).1)
          (hl.lt_device h0)
        split_ifs at hwr with hio'
        · exact Call.does_of_eq (onFs_eq hwr _) (.of_ok (hl.moved_write hp hpos h0 hskip hlen hle
            hiov rfl rfl ((hq₁.next.trans (.ioDone _)).volume _)))
        · have hfail : ¬s.IoOk := fun hok => hio' (hq₁.next.io hok 0)
          exact Call.does_of_eq (onFs_eq hwr _) (.of_error le_rfl
            (hmoved _ hiov _ hq₁.ioDone fun hok => absurd hok hfail) fun hok => absurd hok hfail)
    · rw [Call.does_bind_of_error (onFs_eq hrd u)]
      exact .of_error (Nat.zero_le _) (.zero hq₁ hp.resid hp.room) fun hok =>
        absurd (hl.quiet.next.io hok 0) hio

/-! ## Whole blocks -/

/-- The loop of `uiomovezeros` moves all the zeros at once. -/
theorem uiomovezerosLoop_eq : ∀ (fuel n : ℕ) (u : Uio), n ≤ fuel → u.uioRw = .read →
    u.uioResid < 2 ^ 32 → n ≤ u.uioResid → u.uioResid ≤ u.uioIov.sum →
    ∃ iov, iov.sum = u.uioIov.sum - n ∧ uiomovezerosLoop fuel n u =
      .ok { (u.transfer zeroBlock 0 n).2 with uioIov := iov }
  | 0, n, u, hn, _, hres, _, _ => by
    obtain rfl : n = 0 := Nat.le_zero.mp hn
    rw [Uio.transfer_zero hres]
    exact ⟨u.uioIov, rfl, rfl⟩
  | fuel + 1, n, u, hn, hrd, hres, hle, hroom => by
    unfold uiomovezerosLoop
    split_ifs with h0
    · subst h0
      rw [Uio.transfer_zero hres]
      exact ⟨u.uioIov, rfl, rfl⟩
    obtain ⟨m, hm⟩ : ∃ m, m = min 16 n := ⟨_, rfl⟩
    obtain ⟨iov, hiov, hmove⟩ := uiomove_eq zeroBlock 0 hres (n := m) (by omega) hroom
    have hr := Uio.uioResid_transfer zeroBlock 0 hres (a := m) (by omega)
    obtain ⟨iov', hiov', hloop⟩ := uiomovezerosLoop_eq fuel (n - m)
      { (u.transfer zeroBlock 0 m).2 with uioIov := iov } (by omega)
      ((Uio.transfer_rw u zeroBlock 0 m).trans hrd) (by dsimp only; omega) (by dsimp only; omega)
      (by dsimp only; omega)
    refine ⟨iov', by rw [hiov', hiov]; omega, ?_⟩
    have hbuf : (u.transfer zeroBlock 0 m).1 = zeroBlock := by
      simp only [Uio.transfer, hrd]
    have hadd : (u.transfer zeroBlock 0 m).2.transfer _ (0 + m) (n - m) = _ :=
      Uio.transfer_add hres (show m + (n - m) ≤ u.uioResid by omega)
    rw [hbuf, show m + (n - m) = n by omega] at hadd
    have hcongr : ((u.transfer zeroBlock 0 m).2.transfer zeroBlock 0 (n - m)).2 =
        (u.transfer zeroBlock 0 n).2 := by
      rw [← hadd]
      exact Uio.transfer_congr fun _ _ => rfl
    rw [Uio.transfer_iov (u.transfer zeroBlock 0 m).2 iov, hcongr] at hloop
    have hround : uiomove (fun _ => 0) 0 (min 16 n) u = _ := hm ▸ hmove
    rw [hround, ← hm]
    exact hloop

theorem uiomovezeros_eq (hp : Ready i loose (s, u)) (hrd : u.uioRw = .read)
    (hle : 512 ≤ u.uioResid) : ∃ iov, iov.sum = u.uioIov.sum - 512 ∧
      uiomovezeros 512 u = .ok { (u.transfer zeroBlock 0 512).2 with uioIov := iov } := by
  unfold uiomovezeros
  rw [kassert_pos hrd]
  exact uiomovezerosLoop_eq 512 512 u le_rfl hrd hp.resid hle hp.room

theorem sfsBlockio_piece (hp : Ready i loose (s, u)) (hoff : u.uioOffset % 512 = 0)
    (hle : 512 ≤ u.uioResid) : (sfsBlockio i).Does ok (s, u) (Piece i loose 512 (s, u)) := by
  unfold sfsBlockio
  rw [Call.does_get_bind]
  refine bmap_piece hp (by omega) fun b s₁ hl => ?_
  have hq₁ := hl.quiet.ioDone
  have hmoved := hl.moved hp (by decide) hoff.symm (by decide) hle
  by_cases h0 : b = 0
  · subst h0
    have hrd := hl.read_of_zero
    obtain ⟨iov, hiov, hmove⟩ := uiomovezeros_eq hp hrd hle
    rw [if_pos rfl, Call.does_lift_bind (kassert_pos hrd _), Call.does_lift_bind hmove]
    exact Piece.of_ok (hmoved _ hiov _ hl.quiet fun _ => hrd)
  · have hb23 : b < 2 ^ 23 := by
      have hnb : s₁.sbNblocks = s.sbNblocks := congrArg Fs.nblocks hl.quiet.abs
      have := hl.lt_nblocks h0
      have := hp.nblocks
      dsimp only at this
      omega
    rw [if_neg h0]
    have hset : setUio { u with uioOffset := b * 512, uioResid := 512 } (s₁, u) =
      .ok (.ok (), (s₁, u.atBlock b)) := rfl
    rw [word32_block, Nat.mod_eq_of_lt hb23, Call.does_lift_bind (kassert_pos hle _),
      Call.does_bind_of_ok hset]
    simp only [if_neg h0] at hmoved
    cases hio : s₁.io 0 with
    | false =>
      rw [Call.does_attempt_bind (sfsRwblock_fails (hl.lt_device h0) hio), Call.does_modify_bind,
        Call.does_report]
      have hback : { u.atBlock b with
          uioOffset := (u.atBlock b).uioOffset + u.uioOffset - b * 512
          uioResid := (u.atBlock b).uioResid + u.uioResid - 512 } = u := by
        simp only [Uio.atBlock, Nat.add_sub_cancel_left]
      rw [hback]
      exact .of_error (Nat.zero_le _) (.zero hq₁ hp.resid hp.room) fun hok =>
        absurd (hl.quiet.next.io hok 0) (by simp [hio])
    | true =>
      obtain ⟨s₂, iov, hrun, hiov, hs₂⟩ :=
        sfsRwblock_moves (u := u) (hl.lt_device h0) hio (hle.trans hp.room)
      obtain ⟨hbuf, hu⟩ := Uio.transfer_atBlock hp.resid hle (s₁.disk b) b
      rw [Call.does_attempt_bind hrun, Call.does_modify_bind, Call.does_report]
      rw [hu]
      refine Piece.of_ok ?_
      cases hrw : u.uioRw with
      | read =>
        rw [hrw] at hs₂
        subst hs₂
        exact hmoved _ hiov _ hq₁ fun _ => hrw
      | write =>
        rw [hrw, hbuf] at hs₂
        subst hs₂
        exact hl.moved_write hp (by decide) h0 hoff.symm (by decide) hle hiov rfl rfl
          (hq₁.next.volume _)

/-- The loop over the whole blocks. -/
theorem forEach_sfsBlockio_piece (hp : Ready i loose p) (hoff : p.2.uioOffset % 512 = 0)
    (hle : n * 512 ≤ p.2.uioResid) :
    (Call.forEach (fun _ => sfsBlockio i) (List.range n)).Does ok p
      (Piece i loose (n * 512) p) := by
  refine Call.Does.forRange (I := fun j q => Moved i loose p.1 p.2 (j * 512) q.1 q.2) ?_
    (fun q h => Piece.of_ok h) ?_
  · intro j hj q h
    have hq := h.offset
    have hr := h.resid
    refine (sfsBlockio_piece (h.ready hp) (by omega) (by omega)).mono fun r q' hpc => ?_
    have hall := hpc.after h hp.resid
    rw [← Nat.succ_mul] at hall
    cases r with
    | ok _ => exact hall.moved_of_ok
    | error e => exact hall.widen (Nat.mul_le_mul_right 512 hj)
  · exact .zero (Quiet.refl hp.ok) hp.resid hp.room

/-! ## `sfs_io` -/

theorem sfsLeading_piece (hp : Ready i loose p) : ∃ n ≤ p.2.uioResid,
    (n = p.2.uioResid ∨ (p.2.uioOffset + n) % 512 = 0) ∧
      (sfsLeading i).Does ok p (Piece i loose n p) := by
  by_cases hoff : p.2.uioOffset % 512 = 0
  · refine ⟨0, Nat.zero_le _, Or.inr hoff, ?_⟩
    unfold sfsLeading
    rw [Call.does_get_bind, if_neg (not_not.mpr hoff)]
    exact Piece.of_ok (.zero (Quiet.refl hp.ok) hp.resid hp.room)
  · refine ⟨min (512 - p.2.uioOffset % 512) p.2.uioResid, min_le_right _ _, by omega, ?_⟩
    unfold sfsLeading
    rw [Call.does_get_bind, if_pos hoff]
    exact sfsPartialio_piece hp rfl (by omega) (by omega) (min_le_right _ _)

theorem sfsTrailing_piece (hp : Ready i loose p) (hoff : p.2.uioOffset % 512 = 0)
    (hlt : p.2.uioResid < 512) :
    (sfsTrailing i).Does ok p (Piece i loose p.2.uioResid p) := by
  unfold sfsTrailing
  rw [Call.does_get_bind, Call.does_lift_bind (kassert_pos hlt _)]
  split_ifs with hres
  · exact sfsPartialio_piece hp hoff.symm (by omega) (by omega) le_rfl
  · have h0 : p.2.uioResid = 0 := by omega
    rw [h0]
    exact Piece.of_ok (.zero (Quiet.refl hp.ok) hp.resid hp.room)

/-- The transfer of all the bytes. -/
theorem sfsTransfer_piece (hp : Ready i loose p) :
    (sfsTransfer i).Does ok p (Piece i loose p.2.uioResid p) := by
  obtain ⟨n, hn, halign, hlead⟩ := sfsLeading_piece hp
  obtain ⟨m, hm⟩ := Nat.exists_eq_add_of_le hn
  rw [hm]
  refine Piece.bind hp.resid hlead fun q h => ?_
  have hq := h.ready hp
  have hoff := h.offset
  have hres := h.resid
  rw [Call.does_get_bind]
  split_ifs with h0
  · obtain rfl : m = 0 := by omega
    exact Piece.of_ok (.zero (Quiet.refl hq.ok) hq.resid hq.room)
  have halign' : q.2.uioOffset % 512 = 0 := by omega
  rw [Call.does_lift_bind (kassert_pos halign' _),
    show m = q.2.uioResid / 512 * 512 + q.2.uioResid % 512 by omega]
  refine Piece.bind hq.resid (forEach_sfsBlockio_piece hq halign' (Nat.div_mul_le_self _ _))
    fun q' h' => ?_
  have hoff' := h'.offset
  have hres' := h'.resid
  have hrest : q'.2.uioResid = q.2.uioResid % 512 := by omega
  rw [← hrest]
  exact sfsTrailing_piece (h'.ready hq) (by omega) (by omega)

/-- The file with `k` bytes from position `off` on replaced by those in `data`. -/
def FileView.write (f : FileView) (off k : ℕ) (data : List UInt8) : FileView :=
  { f with
    size := if k = 0 then f.size else max f.size (off + k)
    byte := moveBytes (fun x => data.getD x 0) 0 f.byte off k }

/-- So many bytes have been written to file `i`. -/
structure Written (i : ℕ) (loose : Set ℕ) (p : Sfs × Uio) (k : ℕ) (q : Sfs × Uio) : Prop where
  offset : q.2.uioOffset = p.2.uioOffset + k
  resid : q.2.uioResid + k = p.2.uioResid
  limit : p.2.Near → 0 < k → p.2.uioOffset + k ≤ 143 * 512
  content : ∃ f, Shows p.1 loose (p.1.abs.setFile i f) q.1 ∧ f.type = (p.1.abs.file i).type ∧
    f.links = (p.1.abs.file i).links ∧ (p.1.IoOk → p.2.Near →
      f = (p.1.abs.file i).write p.2.uioOffset k p.2.bytes)

/-- The size of the file after a write. -/
theorem sfsGrow_does (hp : Ready i loose p) (hw : p.2.uioRw = .write)
    (h : Moved i loose p.1 p.2 k q.1 q.2) :
    (sfsGrow i p.2.uioResid).Does ok q fun r q' => r = .ok () ∧ q'.2 = q.2 ∧
      Written i loose p k q' := by
  have hq := h.ready hp
  obtain ⟨sv, hi⟩ := Ok.exists_loaded hq.refs
  obtain ⟨byte, hs, hc⟩ := h.content
  have hoff := h.offset
  have hres := h.resid
  have hfile : q.1.abs.file i = { p.1.abs.file i with byte := byte } := by
    rw [hs.abs, Fs.setFile_file]
  have hsize : sfiSize sv.svI = (p.1.abs.file i).size := by
    have : (q.1.abs.file i).size = sfiSize sv.svI := by
      rw [abs_file_of_loaded hi]
      rfl
    rw [← this, hfile]
  have hbyte : p.1.IoOk → p.2.Near → byte =
      moveBytes (fun x => p.2.bytes.getD x 0) 0 (p.1.abs.file i).byte p.2.uioOffset k := by
    intro hio hn
    rw [(hc hio hn).1]
    simp only [Uio.transfer, hw]
  have hlimit : p.2.Near → 0 < k → p.2.uioOffset + k ≤ 143 * 512 := fun hn => h.limit hn hw
  unfold sfsGrow
  rw [Call.does_get_bind, Call.does_bind_of_ok (onFs_eq (getVnode_eq hi) q.2)]
  split_ifs with hc
  · refine (does_onFs q.2 (setSize_does _ hq.ok hi hp.file)).mono ?_
    rintro r q' ⟨⟨rfl, -, hs', -⟩, hu⟩
    rw [hfile, hs.abs, Fs.setFile_setFile] at hs'
    refine ⟨rfl, hu, hu ▸ hoff, hu ▸ hres, hlimit, _, hs.trans hs', rfl, rfl, fun hio hn => ?_⟩
    have hlim := hlimit hn (by omega)
    refine FileView.ext ?_ rfl rfl (hbyte hio hn)
    change q.2.uioOffset % 2 ^ 32 = if k = 0 then (p.1.abs.file i).size else
      max (p.1.abs.file i).size (p.2.uioOffset + k)
    rw [if_neg (by omega)]
    omega
  · refine ⟨rfl, rfl, hoff, hres, hlimit, _, hs, rfl, rfl, fun hio hn => ?_⟩
    refine FileView.ext ?_ rfl rfl (hbyte hio hn)
    change (p.1.abs.file i).size = if k = 0 then (p.1.abs.file i).size else
      max (p.1.abs.file i).size (p.2.uioOffset + k)
    split_ifs with h0
    · rfl
    · have : ¬(p.1.abs.file i).size < q.2.uioOffset := fun hlt =>
        hc ⟨by omega, h.rw.trans hw, hsize ▸ hlt⟩
      omega

/-- `sfs_io` for writing. -/
theorem sfsIo_write_does (hp : Ready i loose p) (hw : p.2.uioRw = .write) :
    (sfsIo i).Does ok p fun r q => ∃ k ≤ p.2.uioResid, (r = .ok () → k = p.2.uioResid) ∧
      Written i loose p k q := by
  obtain ⟨sv, hi⟩ := Ok.exists_loaded hp.refs
  rw [Call.does_congr (sfsIo_write hi hw)]
  refine (sfsTransfer_piece hp).attempt_bind fun r q h => ?_
  obtain ⟨k, hk, hok, hm⟩ := h.moved
  refine (sfsGrow_does hp hw hm).bind (fun e q' he => absurd he.1 (by simp)) ?_
  rintro _ q' ⟨-, -, hwr⟩
  rw [Call.does_modify_bind, Call.does_report]
  have hword : word32 (q'.2.uioResid + 0) = q'.2.uioResid := by
    have hres := hwr.resid
    have hlt := hp.resid
    unfold word32
    omega
  refine ⟨k, hk, hok, hwr.offset, ?_, hwr.limit, hwr.content⟩
  rw [hword]
  exact hwr.resid

/-- The uio of a read, without the bytes past the end of the file. -/
def Uio.clip (u : Uio) (size : ℕ) : Uio :=
  { u with uioResid := min u.uioResid (size - u.uioOffset) }

/-- `sfs_io` for reading, at a position in the file. -/
theorem sfsIo_read_eq {sv : SfsVnode} (hi : p.1.loaded i = some sv) (hrd : p.2.uioRw = .read)
    (hres : p.2.uioResid < 2 ^ 32) (hlt : p.2.uioOffset < sfiSize sv.svI) :
    sfsIo i p = ((sfsTransfer i).attempt >>= sfsIoOut i p.2.uioResid
      (p.2.uioResid - (p.2.clip (sfiSize sv.svI)).uioResid)) (p.1, p.2.clip (sfiSize sv.svI)) := by
  unfold sfsIo
  rw [Call.get_bind_apply, Call.bind_of_ok (onFs_eq (getVnode_eq hi) p.2)]
  rw [if_neg (fun h => absurd h.2 (not_le.mpr hlt))]
  by_cases hend : sfiSize sv.svI < p.2.uioOffset + p.2.uioResid
  · have hextra : word32 (p.2.uioOffset + p.2.uioResid - sfiSize sv.svI) =
        p.2.uioResid - (sfiSize sv.svI - p.2.uioOffset) := by
      unfold word32
      omega
    have hclip : { p.2 with
        uioResid := p.2.uioResid - (p.2.uioResid - (sfiSize sv.svI - p.2.uioOffset)) } =
        p.2.clip (sfiSize sv.svI) := by
      unfold Uio.clip
      rw [show p.2.uioResid - (p.2.uioResid - (sfiSize sv.svI - p.2.uioOffset)) =
        min p.2.uioResid (sfiSize sv.svI - p.2.uioOffset) by omega]
    have hrest : p.2.uioResid - (p.2.clip (sfiSize sv.svI)).uioResid =
        p.2.uioResid - (sfiSize sv.svI - p.2.uioOffset) := by
      unfold Uio.clip
      dsimp only
      omega
    have hset : setUio (p.2.clip (sfiSize sv.svI)) p = .ok (.ok (), (p.1, _)) := rfl
    rw [if_pos ⟨hrd, hend⟩, hextra, kassert_bind (by omega), hclip, Call.bind_of_ok hset, hrest]
  · have hclip : p.2.clip (sfiSize sv.svI) = p.2 := by
      unfold Uio.clip
      rw [min_eq_left (by omega)]
    rw [if_neg fun h => hend h.2, hclip, Nat.sub_self]

/-- The end of `sfs_io` for reading. -/
theorem sfsIoOut_read {sv : SfsVnode} {extra orig : ℕ} {r : Except Errno Unit}
    (hi : q.1.loaded i = some sv) (hrd : q.2.uioRw = .read)
    (hlt : q.2.uioResid + extra < 2 ^ 32) : sfsIoOut i orig extra r q =
      .ok (r, (q.1, { q.2 with uioResid := q.2.uioResid + extra })) := by
  have hgrow : sfsGrow i orig q = .ok (.ok (), q) := by
    unfold sfsGrow
    rw [Call.get_bind_apply, Call.bind_of_ok (onFs_eq (getVnode_eq hi) q.2), if_neg]
    · rfl
    · rw [hrd]
      rintro ⟨-, h, -⟩
      cases h
  unfold sfsIoOut
  rw [Call.bind_of_ok hgrow, Call.modify_bind_apply,
    show word32 (q.2.uioResid + extra) = q.2.uioResid + extra from Nat.mod_eq_of_lt hlt]
  cases r <;> rfl

/-- So many bytes have been read from file `i`. -/
structure HasRead (i : ℕ) (loose : Set ℕ) (p : Sfs × Uio) (k : ℕ) (q : Sfs × Uio) : Prop where
  offset : q.2.uioOffset = p.2.uioOffset + k
  resid : q.2.uioResid + k = p.2.uioResid
  content : ∃ f, Shows p.1 loose (p.1.abs.setFile i f) q.1 ∧ f.type = (p.1.abs.file i).type ∧
    f.links = (p.1.abs.file i).links ∧ (p.1.IoOk → f = p.1.abs.file i ∧
      q.2.bytes = p.2.bytes ++ Uio.slice (p.1.abs.file i).byte p.2.uioOffset k)

/-- The transfer for a read that was cut short at the end of the file. -/
theorem Moved.hasRead {extra size : ℕ} (h : Moved i loose p.1 (p.2.clip size) k q.1 q.2)
    (hrd : p.2.uioRw = .read) (hnear : (p.2.clip size).Near)
    (hextra : (p.2.clip size).uioResid + extra = p.2.uioResid) :
    HasRead i loose p k (q.1, { q.2 with uioResid := q.2.uioResid + extra }) := by
  have hres := h.resid
  obtain ⟨byte, hs, hc⟩ := h.content
  refine ⟨h.offset, ?_, _, hs, rfl, rfl, fun hio => ?_⟩
  · dsimp only
    omega
  · obtain ⟨hb, hu⟩ := hc hio hnear
    have hrd' : (p.2.clip size).uioRw = .read := hrd
    unfold Uio.transfer at hb hu
    rw [hrd'] at hb hu
    exact ⟨by rw [hb], hu⟩

/-- `sfs_io` for reading. -/
theorem sfsIo_read_does (hp : Ready i loose p) (hrd : p.2.uioRw = .read) :
    (sfsIo i).Does ok p fun r q => ∃ k ≤ (p.2.clip (p.1.abs.file i).size).uioResid,
      (r = .ok () → k = (p.2.clip (p.1.abs.file i).size).uioResid) ∧
      (p.1.IoOk → (p.1.abs.file i).size ≤ 143 * 512 → r = .ok ()) ∧ HasRead i loose p k q := by
  obtain ⟨sv, hi⟩ := Ok.exists_loaded hp.refs
  have hlt := hp.resid
  have hsize : (p.1.abs.file i).size = sfiSize sv.svI := by
    rw [abs_file_of_loaded hi]
    rfl
  have hle : (p.2.clip (p.1.abs.file i).size).uioResid ≤ p.2.uioResid := min_le_left _ _
  by_cases hin : (p.1.abs.file i).size ≤ p.2.uioOffset
  · have h0 : (p.2.clip (p.1.abs.file i).size).uioResid = 0 := by
      unfold Uio.clip
      dsimp only
      omega
    unfold sfsIo
    rw [Call.does_get_bind, Call.does_bind_of_ok (onFs_eq (getVnode_eq hi) p.2),
      if_pos ⟨hrd, hsize ▸ hin⟩]
    refine ⟨0, Nat.zero_le _, fun _ => h0.symm, fun _ _ => rfl, rfl, rfl, p.1.abs.file i, ?_, rfl,
      rfl, fun _ => ⟨rfl, (List.append_nil _).symm⟩⟩
    rw [Fs.setFile_self]
    exact Quiet.refl hp.ok
  · have hclip : Ready i loose (p.1, p.2.clip (p.1.abs.file i).size) :=
      ⟨hp.ok, hp.refs, hp.file, hp.nblocks, hle.trans_lt hlt, hle.trans hp.room⟩
    have hend : (p.2.clip (p.1.abs.file i).size).uioOffset +
        (p.2.clip (p.1.abs.file i).size).uioResid ≤ (p.1.abs.file i).size := by
      unfold Uio.clip
      dsimp only
      omega
    have hnear : (p.2.clip (p.1.abs.file i).size).Near := by
      have := sfiSize_lt sv.svI
      unfold Uio.Near
      omega
    rw [Call.does_congr (sfsIo_read_eq hi hrd hlt (hsize ▸ not_le.mp hin)), ← hsize]
    refine (sfsTransfer_piece hclip).attempt_bind fun r q h => ?_
    obtain ⟨k, hk, hok, hm⟩ := h.moved
    obtain ⟨sv', hi'⟩ := Ok.exists_loaded (hm.ready hclip).refs
    have hres := hm.resid
    dsimp only at hres hk hok
    exact Call.does_of_eq (sfsIoOut_read hi' (hm.rw.trans hrd) (by omega))
      ⟨k, hk, hok, fun hio hmax => h.reads hio hrd (hend.trans hmax),
        hm.hasRead hrd hnear (by omega)⟩

/-! ## The operations -/

theorem does_onFile {α : Type} {m : SfsM α} {P : Except Errno α → Sfs → Prop}
    (hi : s.abs.refs i ≠ 0) (ht : (s.abs.file i).type ≠ sfsTypeDir) :
    (onFile i m).Does ok s P ↔ m.Does ok s P := by
  obtain ⟨sv, hsv⟩ := Ok.exists_loaded hi
  rw [type_of_live (live_of_loaded hsv), inode_of_loaded hsv] at ht
  unfold onFile
  rw [Call.does_bind_of_ok (getVnode_eq hsv), if_neg ht]

/-- `sfs_read` and `sfs_write` hand back the uio. -/
theorem does_returnsUio {P : Except Errno Unit → Sfs × Uio → Prop} (hi : s.abs.refs i ≠ 0)
    (ht : (s.abs.file i).type ≠ sfsTypeDir) (h : (sfsIo i).Does ok (s, u) P) :
    (returnsUio (onFile i (sfsRdwr i u.uioRw u))).Does ok s fun r s' =>
      ∃ res u', r = .ok (res, .uio u') ∧ P res (s', u') := by
  refine Call.Does.attempt_bind (P := fun r s' => ∃ res u', r = .ok (res, u') ∧ P res (s', u'))
    ?_ ?_
  · rw [does_onFile hi ht]
    refine (Call.does_lift_bind (kassert_pos rfl _)).mpr ?_
    exact Meets.bind h fun r hr => ⟨r.1, r.2.2, rfl, hr⟩
  · rintro r s' ⟨res, u', rfl, hP⟩
    exact ⟨res, u', rfl, hP⟩

theorem write_does (hp : Ready i loose (s, u)) (ht : (s.abs.file i).type ≠ sfsTypeDir)
    (hw : u.uioRw = .write) : (SfsOp.write i u).run.Does ok s fun r s' =>
      ∃ res u', r = .ok (res, .uio u') ∧ ∃ k ≤ u.uioResid, (res = .ok () → k = u.uioResid) ∧
        Written i loose (s, u) k (s', u') := by
  have h : (returnsUio _).Does ok s _ := does_returnsUio hp.refs ht (sfsIo_write_does hp hw)
  rw [hw] at h
  exact h

theorem read_does (hp : Ready i loose (s, u)) (ht : (s.abs.file i).type ≠ sfsTypeDir)
    (hrd : u.uioRw = .read) : (SfsOp.read i u).run.Does ok s fun r s' =>
      ∃ res u', r = .ok (res, .uio u') ∧ ∃ k ≤ (u.clip (s.abs.file i).size).uioResid,
        (res = .ok () → k = (u.clip (s.abs.file i).size).uioResid) ∧
        (s.IoOk → (s.abs.file i).size ≤ 143 * 512 → res = .ok ()) ∧
        HasRead i loose (s, u) k (s', u') := by
  have h : (returnsUio _).Does ok s _ := does_returnsUio hp.refs ht (sfsIo_read_does hp hrd)
  rw [hrd] at h
  exact h

end OS161
