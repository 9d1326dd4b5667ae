import OS161.ByteMoves
import OS161.Outcome

/-!
# `uio.c`

A `Uio` says where a transfer stands : the lengths of the buffers that are left, the
position in the file, the number of bytes to go, and the direction. The buffers are in the
kernel (`UIO_SYSSPACE`), so that a transfer cannot fail. Of their contents `bytes` keeps
what matters : for a write the bytes that are still to be taken, for a read the bytes that
were put there so far.

`uiomove_eq` says what `uiomove` does when the uio has room for the bytes.
-/

namespace OS161

/-- `UIO_READ` and `UIO_WRITE`. -/
inductive UioRw
  | read
  | write
  deriving DecidableEq, Repr

/-- `struct uio`. -/
structure Uio where
  /-- The `iov_len` of each iovec. -/
  uioIov : List ℕ
  uioOffset : ℕ
  uioResid : ℕ
  uioRw : UioRw
  bytes : List UInt8
  deriving DecidableEq, Repr

namespace Uio

/-- The bytes of `buf` from `ptr` on. -/
def slice (buf : ℕ → UInt8) (ptr len : ℕ) : List UInt8 :=
  (List.range len).map fun i => buf (ptr + i)

/-- `memmove` between `buf` and the buffers of the uio, with the accounting. -/
def transfer (u : Uio) (buf : ℕ → UInt8) (ptr size : ℕ) : (ℕ → UInt8) × Uio :=
  let u' := { u with
    uioResid := (u.uioResid + 2 ^ 32 - size) % 2 ^ 32
    uioOffset := u.uioOffset + size }
  match u.uioRw with
  | .read => (buf, { u' with bytes := u.bytes ++ slice buf ptr size })
  | .write =>
    (moveBytes (fun i => u.bytes.getD i 0) 0 buf ptr size, { u' with bytes := u.bytes.drop size })

end Uio

/-- The loop of `uiomove`, over the iovecs that are left. One that is used up leads to the
next one. -/
def uiomoveLoop : List ℕ → (ℕ → UInt8) → ℕ → ℕ → Uio → Except Halt ((ℕ → UInt8) × Uio)
  | [], buf, _, n, u =>
    if n = 0 ∨ u.uioResid = 0 then .ok (buf, { u with uioIov := [] })
    else .error (.panic "uiomove: ran out of buffers\n")
  | len :: iov, buf, ptr, n, u =>
    if n = 0 ∨ u.uioResid = 0 then .ok (buf, { u with uioIov := len :: iov })
    else if n < len then
      let r := u.transfer buf ptr n
      .ok (r.1, { r.2 with uioIov := (len - n) :: iov })
    else
      let r := u.transfer buf ptr len
      uiomoveLoop iov r.1 (ptr + len) (n - len) r.2

/-- `uiomove` between `buf` from `ptr` on and the uio. -/
def uiomove (buf : ℕ → UInt8) (ptr n : ℕ) (u : Uio) : Except Halt ((ℕ → UInt8) × Uio) :=
  uiomoveLoop u.uioIov buf ptr n u

/-- The loop of `uiomovezeros`, sixteen bytes at a time. Each round moves a byte at least, so
that `n` rounds are enough. -/
def uiomovezerosLoop : ℕ → ℕ → Uio → Except Halt Uio
  | 0, _, u => .ok u
  | fuel + 1, n, u =>
    if n = 0 then .ok u
    else do
      let r ← uiomove (fun _ => 0) 0 (min 16 n) u
      uiomovezerosLoop fuel (n - min 16 n) r.2

/-- `uiomovezeros`. -/
def uiomovezeros (n : ℕ) (u : Uio) : Except Halt Uio := do
  kassert (u.uioRw = .read) "uio->uio_rw == UIO_READ"
  uiomovezerosLoop n n u

/-! ## What `uiomove` does -/

namespace Uio

variable {u : Uio} {buf : ℕ → UInt8} {ptr a b : ℕ}

@[simp] theorem length_slice (buf : ℕ → UInt8) (ptr len : ℕ) :
    (slice buf ptr len).length = len := by
  simp [slice]

theorem getD_slice {buf : ℕ → UInt8} {ptr len x : ℕ} (hx : x < len) :
    (slice buf ptr len).getD x 0 = buf (ptr + x) := by
  simp [slice, List.getD_eq_getElem?_getD, hx]

theorem slice_add (buf : ℕ → UInt8) (ptr a b : ℕ) :
    slice buf ptr (a + b) = slice buf ptr a ++ slice buf (ptr + a) b := by
  unfold slice
  rw [List.range_add, List.map_append, List.map_map]
  simp [Function.comp_def, Nat.add_assoc]

/-- Two transfers, one after the other. -/
theorem transfer_add (hr : u.uioResid < 2 ^ 32) (hle : a + b ≤ u.uioResid) :
    (u.transfer buf ptr a).2.transfer (u.transfer buf ptr a).1 (ptr + a) b =
      u.transfer buf ptr (a + b) := by
  have hres : ((u.uioResid + 2 ^ 32 - a) % 2 ^ 32 + 2 ^ 32 - b) % 2 ^ 32 =
      (u.uioResid + 2 ^ 32 - (a + b)) % 2 ^ 32 := by omega
  unfold transfer
  cases hrw : u.uioRw with
  | read => simp only [hres, List.append_assoc, slice_add, Nat.add_assoc]
  | write =>
    have hdrop : (fun i => (u.bytes.drop a).getD i 0) = fun i => u.bytes.getD (a + i) 0 := by
      funext i
      simp [List.getD_eq_getElem?_getD, List.getElem?_drop]
    have hmove : moveBytes (fun i => u.bytes.getD (a + i) 0) 0
        (moveBytes (fun i => u.bytes.getD i 0) 0 buf ptr a) (ptr + a) b =
        moveBytes (fun i => u.bytes.getD i 0) 0 buf ptr (a + b) := by
      rw [← moveBytes_add]
      refine moveBytes_congr fun x hx => ?_
      simp only [Nat.zero_add]
    simp only [hres, hdrop, hmove, List.drop_drop, Nat.add_assoc]

theorem transfer_zero (hr : u.uioResid < 2 ^ 32) : u.transfer buf ptr 0 = (buf, u) := by
  have hres : (u.uioResid + 2 ^ 32 - 0) % 2 ^ 32 = u.uioResid := by omega
  unfold transfer
  cases hrw : u.uioRw with
  | read =>
    simp only [hres, slice, List.range_zero, List.map_nil, List.append_nil, Nat.add_zero]
    rw [← hrw]
  | write =>
    simp only [hres, moveBytes_zero, List.drop_zero, Nat.add_zero]
    rw [← hrw]

theorem uioResid_transfer (buf : ℕ → UInt8) (ptr : ℕ) (hr : u.uioResid < 2 ^ 32)
    (ha : a ≤ u.uioResid) : (u.transfer buf ptr a).2.uioResid = u.uioResid - a := by
  unfold transfer
  cases u.uioRw <;> dsimp only <;> omega

end Uio

/-- The loop of `uiomove` moves all the bytes at once, and only the iovecs show where it
stopped. -/
theorem uiomoveLoop_eq : ∀ (iov : List ℕ) (buf : ℕ → UInt8) (ptr n : ℕ) (u : Uio),
    u.uioResid < 2 ^ 32 → n ≤ u.uioResid → n ≤ iov.sum →
      ∃ iov', iov'.sum = iov.sum - n ∧ uiomoveLoop iov buf ptr n u =
        .ok ((u.transfer buf ptr n).1, { (u.transfer buf ptr n).2 with uioIov := iov' })
  | [], buf, ptr, n, u, hr, hn, hsum => by
    obtain rfl : n = 0 := Nat.le_zero.mp hsum
    rw [Uio.transfer_zero hr]
    exact ⟨[], rfl, rfl⟩
  | len :: iov, buf, ptr, n, u, hr, hn, hsum => by
    rw [List.sum_cons] at hsum ⊢
    unfold uiomoveLoop
    split_ifs with h0 hlt
    · obtain rfl : n = 0 := by omega
      rw [Uio.transfer_zero hr]
      exact ⟨len :: iov, List.sum_cons, rfl⟩
    · refine ⟨(len - n) :: iov, ?_, rfl⟩
      rw [List.sum_cons]
      omega
    · have hres := Uio.uioResid_transfer buf ptr hr (a := len) (by omega)
      obtain ⟨iov', hsum', heq⟩ := uiomoveLoop_eq iov (u.transfer buf ptr len).1 (ptr + len)
        (n - len) (u.transfer buf ptr len).2 (by omega) (by omega) (by omega)
      rw [Uio.transfer_add hr (by omega), show len + (n - len) = n by omega] at heq
      exact ⟨iov', by omega, heq⟩

/-- `uiomove` of bytes for which the uio has room. -/
theorem uiomove_eq (buf : ℕ → UInt8) (ptr : ℕ) {n : ℕ} {u : Uio} (hr : u.uioResid < 2 ^ 32)
    (hn : n ≤ u.uioResid) (hsum : u.uioResid ≤ u.uioIov.sum) :
    ∃ iov', iov'.sum = u.uioIov.sum - n ∧ uiomove buf ptr n u =
      .ok ((u.transfer buf ptr n).1, { (u.transfer buf ptr n).2 with uioIov := iov' }) :=
  uiomoveLoop_eq u.uioIov buf ptr n u hr hn (hn.trans hsum)

end OS161
