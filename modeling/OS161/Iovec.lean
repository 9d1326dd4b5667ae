import OS161.ByteMoves
import OS161.Uio

/-!
# `uiomove` between kernel buffers

`SysSpace.uiomove` is `uiomove` for `UIO_SYSSPACE`, with the memory, the iovecs and their addresses.
`Uio` keeps the lengths of the buffers only, which is enough where the number of bytes is known to
fit; here the number of bytes is arbitrary.

`addrs` lists the addresses of the buffers in order, and `advance` is the list of iovecs after a
number of bytes. `uiomoveLoop_eq` says what a call does if the loop stops at `uio_resid` : this is
so if `n` is at most `uio_resid`, or if some iovecs from the first on have `uio_resid` bytes
together (`StopsAtResid`). The loop takes no account of `uio_resid` within an iovec, so that in all
other cases it moves more bytes than `uio_resid` (`uiomoveLoop_overshoots`).
`uiomove_exact_iff` puts the two together. Where the bytes fit, `Uio` is this model without the
addresses (`Uio.Shows.uiomove`).
-/

namespace OS161

namespace SysSpace

/-- `struct iovec`, of a kernel buffer. -/
structure Iovec where
  kbase : ℕ
  len : ℕ
  deriving DecidableEq, Repr

/-- `struct uio`. The list holds the `uio_iovcnt` iovecs from `uio_iov` on. -/
structure Uio where
  iov : List Iovec
  offset : ℕ
  resid : ℕ
  rw : UioRw
  deriving DecidableEq, Repr

/-- One `memmove` between the kernel buffer at `ptr` and the iovec's buffer at `kbase`. -/
def transfer (rw : UioRw) (mem : ℕ → UInt8) (ptr kbase size : ℕ) : ℕ → UInt8 :=
  match rw with
  | .read => moveBytes mem ptr mem kbase size
  | .write => moveBytes mem kbase mem ptr size

/-- The loop of `uiomove`. Each round moves a byte at least, or goes to the next iovec. -/
def uiomoveLoop : ℕ → (ℕ → UInt8) → ℕ → ℕ → Uio → Except Halt ((ℕ → UInt8) × Uio)
  | 0, _, _, _, _ => .error .hang
  | fuel + 1, mem, ptr, n, u =>
    if n = 0 ∨ u.resid = 0 then .ok (mem, u)
    else match u.iov with
      | [] => .error .nullDeref
      | v :: rest =>
        let size := min v.len n
        if size = 0 then
          if rest = [] then .error (.panic "uiomove: ran out of buffers\n")
          else uiomoveLoop fuel mem ptr n { u with iov := rest }
        else uiomoveLoop fuel (transfer u.rw mem ptr v.kbase size) (ptr + size) (n - size)
          { u with
            iov := ⟨v.kbase + size, v.len - size⟩ :: rest
            resid := word32 (u.resid + 2 ^ 32 - size)
            offset := u.offset + size }

/-- `uiomove`. -/
def uiomove (mem : ℕ → UInt8) (ptr n : ℕ) (u : Uio) : Except Halt ((ℕ → UInt8) × Uio) :=
  uiomoveLoop (n + u.iov.length + 1) mem ptr n u

/-- Consecutive calls, for consecutive parts of a kernel buffer. -/
def uiomoves (mem : ℕ → UInt8) (ptr : ℕ) : List ℕ → Uio → Except Halt ((ℕ → UInt8) × Uio)
  | [], u => .ok (mem, u)
  | n :: ns, u => do
    let r ← uiomove mem ptr n u
    uiomoves r.1 (ptr + n) ns r.2

/-! ## Positions in the iovecs -/

/-- The addresses of the buffers. -/
def addrs (l : List Iovec) : List ℕ :=
  l.flatMap fun v => List.range' v.kbase v.len

/-- The iovecs after `m` bytes. One that is used up stays until more bytes are wanted. -/
def advance : List Iovec → ℕ → List Iovec
  | [], _ => []
  | v :: rest, m =>
    if m = 0 then v :: rest
    else if m ≤ v.len then ⟨v.kbase + m, v.len - m⟩ :: rest
    else advance rest (m - v.len)

/-- The iovecs from the first on have `resid` bytes at the end of one of them, or no more than
`resid` bytes are wanted. -/
def StopsAtResid (n resid : ℕ) (l : List Iovec) : Prop :=
  n ≤ resid ∨ ∃ k, ((l.take k).map Iovec.len).sum = resid

section Positions

variable {v : Iovec} {l rest : List Iovec} {m n a b resid : ℕ}

@[simp] theorem addrs_nil : addrs [] = [] :=
  rfl

@[simp] theorem addrs_cons : addrs (v :: rest) = List.range' v.kbase v.len ++ addrs rest :=
  List.flatMap_cons

theorem length_addrs : (addrs l).length = (l.map Iovec.len).sum := by
  simp [addrs, List.length_flatMap]

@[simp] theorem advance_zero : advance l 0 = l := by
  cases l <;> rfl

theorem advance_of_le (hm : 0 < m) (hle : m ≤ v.len) :
    advance (v :: rest) m = ⟨v.kbase + m, v.len - m⟩ :: rest := by
  rw [advance, if_neg (by omega), if_pos hle]

theorem advance_of_lt (hlt : v.len < m) : advance (v :: rest) m = advance rest (m - v.len) := by
  rw [advance, if_neg (by omega), if_neg (by omega)]

theorem advance_advance : advance (advance l a) b = advance l (a + b) := by
  induction l generalizing a with
  | nil => rfl
  | cons v rest ih =>
    rcases Nat.eq_zero_or_pos a with rfl | ha
    · rw [advance_zero, Nat.zero_add]
    rcases Nat.eq_zero_or_pos b with rfl | hb
    · rw [advance_zero, Nat.add_zero]
    rcases Nat.lt_or_ge v.len a with hlt | hle
    · rw [advance_of_lt hlt, ih, advance_of_lt (by omega), Nat.sub_add_comm hlt.le]
    · rw [advance_of_le ha hle]
      rcases Nat.lt_or_ge v.len (a + b) with hlt' | hle'
      · rw [advance_of_lt hlt', advance_of_lt (by simp only; omega)]
        congr 1
        simp only
        omega
      · rw [advance_of_le (by omega) hle', advance_of_le hb (by simp only; omega)]
        simp only [Nat.add_assoc, Nat.sub_sub]

theorem addrs_advance : addrs (advance l m) = (addrs l).drop m := by
  induction l generalizing m with
  | nil => simp [advance]
  | cons v rest ih =>
    rcases Nat.eq_zero_or_pos m with rfl | hm
    · rw [advance_zero, List.drop_zero]
    rcases Nat.lt_or_ge v.len m with hlt | hle
    · have hnil : (List.range' v.kbase v.len).drop m = [] :=
        List.drop_eq_nil_of_le (List.length_range'.trans_le hlt.le)
      rw [advance_of_lt hlt, ih, addrs_cons, List.drop_append, List.length_range', hnil,
        List.nil_append]
    · rw [advance_of_le hm hle, addrs_cons, addrs_cons, List.drop_append, List.length_range',
        List.drop_range', Nat.sub_eq_zero_of_le hle, List.drop_zero, Nat.mul_one]

theorem take_addrs (hle : m ≤ v.len) : (addrs (v :: rest)).take m = List.range' v.kbase m := by
  have hsplit : List.range' v.kbase v.len =
      List.range' v.kbase m ++ List.range' (v.kbase + m) (v.len - m) := by
    rw [List.range'_append_1, Nat.add_sub_cancel' hle]
  rw [addrs_cons, hsplit, List.append_assoc, List.take_left' List.length_range']

/-- The end of an iovec stays the end of one. -/
theorem exists_take_advance {k : ℕ} (hk : ((l.take k).map Iovec.len).sum = resid) (hm : m ≤ resid) :
    ∃ k', (((advance l m).take k').map Iovec.len).sum = resid - m := by
  induction l generalizing m k resid with
  | nil =>
    refine ⟨0, ?_⟩
    simp only [List.take_nil, List.map_nil, List.sum_nil] at hk
    simp only [List.take_zero, List.map_nil, List.sum_nil]
    omega
  | cons v rest ih =>
    rcases Nat.eq_zero_or_pos m with rfl | hpos
    · exact ⟨k, by rw [advance_zero, hk, Nat.sub_zero]⟩
    cases k with
    | zero =>
      simp only [List.take_zero, List.map_nil, List.sum_nil] at hk
      omega
    | succ k =>
      simp only [List.take_succ_cons, List.map_cons, List.sum_cons] at hk
      rcases Nat.lt_or_ge v.len m with hlt | hle
      · have hrest : ((rest.take k).map Iovec.len).sum = resid - v.len := by omega
        obtain ⟨k', hk'⟩ := ih hrest (show m - v.len ≤ resid - v.len by omega)
        refine ⟨k', ?_⟩
        rw [advance_of_lt hlt, hk']
        omega
      · refine ⟨k + 1, ?_⟩
        rw [advance_of_le hpos hle]
        simp only [List.take_succ_cons, List.map_cons, List.sum_cons]
        omega

theorem StopsAtResid.advance (h : StopsAtResid n resid l) (hm : m ≤ resid) :
    StopsAtResid (n - m) (resid - m) (SysSpace.advance l m) := by
  rcases h with hle | ⟨k, hk⟩
  · exact Or.inl (Nat.sub_le_sub_right hle m)
  · exact Or.inr (exists_take_advance hk hm)

theorem StopsAtResid.mono (h : StopsAtResid n resid l) (hm : m ≤ n) : StopsAtResid m resid l :=
  h.imp_left hm.trans

/-- The first chunk ends at `uio_resid` at the latest. -/
theorem StopsAtResid.min_le (h : StopsAtResid n resid (v :: rest)) (hr : resid ≠ 0) :
    min v.len n ≤ resid := by
  rcases h with hle | ⟨k, hk⟩
  · exact (Nat.min_le_right _ _).trans hle
  · cases k with
    | zero => exact absurd hk.symm hr
    | succ k =>
      simp only [List.take_succ_cons, List.map_cons, List.sum_cons] at hk
      omega

theorem StopsAtResid.tail (h : StopsAtResid n resid (v :: rest)) (hr : resid ≠ 0)
    (hv : v.len = 0) : StopsAtResid n resid rest := by
  rcases h with hle | ⟨k, hk⟩
  · exact Or.inl hle
  · cases k with
    | zero => exact absurd hk.symm hr
    | succ k =>
      simp only [List.take_succ_cons, List.map_cons, List.sum_cons, hv, Nat.zero_add] at hk
      exact Or.inr ⟨k, hk⟩

/-- The ends of the iovecs after `v`, counted from the start of `v`. -/
theorem StopsAtResid.cons (h : StopsAtResid (n - v.len) (resid - v.len) rest)
    (hle : v.len ≤ resid) (hn : resid < n) : StopsAtResid n resid (v :: rest) := by
  rcases h with hle' | ⟨k, hk⟩
  · omega
  · refine Or.inr ⟨k + 1, ?_⟩
    simp only [List.take_succ_cons, List.map_cons, List.sum_cons]
    omega

end Positions

/-! ## The bytes -/

/-- The moves between the kernel buffer at `ptr` and the addresses `as`. -/
def moves (rw : UioRw) (ptr : ℕ) (as : List ℕ) : List (ℕ × ℕ) :=
  match rw with
  | .read => (List.range' ptr as.length).zip as
  | .write => as.zip (List.range' ptr as.length)

/-- The kernel buffer is apart from the buffers of the uio. -/
def Apart (ptr n : ℕ) (as : List ℕ) : Prop :=
  ∀ x ∈ as, ¬(ptr ≤ x ∧ x < ptr + n)

section Bytes

variable {rw : UioRw} {mem : ℕ → UInt8} {ptr n m : ℕ} {as bs : List ℕ}

@[simp] theorem moves_nil : moves rw ptr [] = [] := by
  cases rw <;> rfl

theorem transfer_eq (rw : UioRw) (mem : ℕ → UInt8) (ptr kbase size : ℕ) :
    transfer rw mem ptr kbase size =
      placeAll mem (moves rw ptr (List.range' kbase size)) mem := by
  cases rw <;> simp only [moves, transfer, List.length_range', placeAll_zip_range']

theorem moves_append (rw : UioRw) (ptr : ℕ) (as bs : List ℕ) : moves rw ptr (as ++ bs) =
    moves rw ptr as ++ moves rw (ptr + as.length) bs := by
  have hrange : List.range' ptr (as ++ bs).length =
      List.range' ptr as.length ++ List.range' (ptr + as.length) bs.length := by
    rw [List.length_append, List.range'_append_1]
  cases rw <;> simp only [moves, hrange] <;> exact List.zip_append (by simp)

theorem Apart.drop (h : Apart ptr n as) (k : ℕ) : Apart (ptr + k) (n - k) (as.drop k) := by
  intro x hx hin
  exact h x (List.mem_of_mem_drop hx) ⟨by omega, by omega⟩

/-- No move overwrites what a later one reads. -/
theorem Apart.ne (h : Apart ptr n (as ++ bs)) (hn : as.length + bs.length ≤ n)
    {p q : ℕ × ℕ} (hp : p ∈ moves rw ptr as) (hq : q ∈ moves rw (ptr + as.length) bs) :
    p.2 ≠ q.1 := by
  obtain ⟨p₁, p₂⟩ := p
  obtain ⟨q₁, q₂⟩ := q
  rintro (rfl : p₂ = q₁)
  cases rw with
  | read =>
    obtain ⟨-, hdst⟩ := List.of_mem_zip hp
    obtain ⟨hsrc, -⟩ := List.of_mem_zip hq
    have := List.mem_range'_1.mp hsrc
    exact h p₂ (List.mem_append_left bs hdst) (by omega)
  | write =>
    obtain ⟨-, hdst⟩ := List.of_mem_zip hp
    obtain ⟨hsrc, -⟩ := List.of_mem_zip hq
    have := List.mem_range'_1.mp hdst
    exact h p₂ (List.mem_append_right as hsrc) (by omega)

/-- The moves of `m` bytes, performed in two lots. -/
theorem placeAll_moves {k : ℕ} (h : Apart ptr n as) (hk : k ≤ m) (hm : m ≤ n)
    (hlen : m ≤ as.length) :
    placeAll (placeAll mem (moves rw ptr (as.take k)) mem)
      (moves rw (ptr + k) ((as.drop k).take (m - k)))
      (placeAll mem (moves rw ptr (as.take k)) mem) =
    placeAll mem (moves rw ptr (as.take m)) mem := by
  have hsplit : as.take m = as.take k ++ (as.drop k).take (m - k) := by
    rw [← List.take_add, Nat.add_sub_cancel' hk]
  have hlk : (as.take k).length = k := List.length_take_of_le (hk.trans hlen)
  have hlm : ((as.drop k).take (m - k)).length ≤ m - k := List.length_take_le _ _
  have hapart : Apart ptr n (as.take k ++ (as.drop k).take (m - k)) := by
    intro x hx
    exact h x (List.mem_of_mem_take (hsplit ▸ hx))
  have hmoves := moves_append rw ptr (as.take k) ((as.drop k).take (m - k))
  rw [hlk] at hmoves
  rw [hsplit, hmoves]
  refine placeAll_append_self fun p hp q hq => hapart.ne ?_ hp (hlk.symm ▸ hq)
  omega

end Bytes

/-! ## The loop -/

/-- The uio after `m` bytes. -/
def Uio.after (u : Uio) (m : ℕ) : Uio :=
  { u with iov := advance u.iov m, resid := u.resid - m, offset := u.offset + m }

section Loop

variable {u u' : Uio} {v : Iovec} {rest : List Iovec} {mem mem' : ℕ → UInt8}
  {fuel ptr n m a b : ℕ}

@[simp] theorem Uio.after_zero : u.after 0 = u := by
  simp [Uio.after]

theorem Uio.after_after : (u.after a).after b = u.after (a + b) := by
  simp only [Uio.after, advance_advance, Nat.sub_sub, Nat.add_assoc]

/-- An iovec without bytes does not matter once bytes are wanted. -/
theorem Uio.after_tail (hiov : u.iov = v :: rest) (hv : v.len = 0) (hm : 0 < m) :
    Uio.after { u with iov := rest } m = u.after m := by
  simp only [Uio.after, hiov, advance_of_lt (hv.trans_lt hm), hv, Nat.sub_zero]

theorem uiomoveLoop_done (h : n = 0 ∨ u.resid = 0) :
    uiomoveLoop (fuel + 1) mem ptr n u = .ok (mem, u) := by
  rw [uiomoveLoop, if_pos h]

theorem uiomoveLoop_skip (h : ¬(n = 0 ∨ u.resid = 0)) (hiov : u.iov = v :: rest) (hv : v.len = 0) :
    uiomoveLoop (fuel + 1) mem ptr n u =
      if rest = [] then .error (.panic "uiomove: ran out of buffers\n")
      else uiomoveLoop fuel mem ptr n { u with iov := rest } := by
  rw [uiomoveLoop, if_neg h, hiov]
  simp only [hv, Nat.zero_min, if_true]

theorem uiomoveLoop_move (h : ¬(n = 0 ∨ u.resid = 0)) (hiov : u.iov = v :: rest) (hv : v.len ≠ 0) :
    uiomoveLoop (fuel + 1) mem ptr n u =
      uiomoveLoop fuel (transfer u.rw mem ptr v.kbase (min v.len n)) (ptr + min v.len n)
        (n - min v.len n) { u.after (min v.len n) with
          resid := word32 (u.resid + 2 ^ 32 - min v.len n) } := by
  have hsize : min v.len n ≠ 0 := by omega
  rw [uiomoveLoop, if_neg h, Uio.after, hiov,
    advance_of_le (Nat.pos_of_ne_zero hsize) (Nat.min_le_left _ _)]
  simp only [hsize, if_false]

/-- The loop moves as many bytes as are wanted and left, and these bytes only. -/
def LoopExact (fuel : ℕ) (mem : ℕ → UInt8) (ptr n : ℕ) (u : Uio) : Prop :=
  ∃ mem', uiomoveLoop fuel mem ptr n u = .ok (mem', u.after (min n u.resid)) ∧
    (Apart ptr n (addrs u.iov) →
      mem' = placeAll mem (moves u.rw ptr ((addrs u.iov).take (min n u.resid))) mem)

theorem LoopExact.done (h : n = 0 ∨ u.resid = 0) : LoopExact (fuel + 1) mem ptr n u := by
  have hm : min n u.resid = 0 := by omega
  refine ⟨mem, ?_, fun _ => ?_⟩
  · rw [uiomoveLoop_done h, hm, Uio.after_zero]
  · rw [hm, List.take_zero, moves_nil, placeAll_nil]

theorem LoopExact.skip (hdone : ¬(n = 0 ∨ u.resid = 0)) (hiov : u.iov = v :: rest)
    (hv : v.len = 0) (hrest : rest ≠ []) (h : LoopExact fuel mem ptr n { u with iov := rest }) :
    LoopExact (fuel + 1) mem ptr n u := by
  obtain ⟨mem', heq, hmem⟩ := h
  have haddrs : addrs u.iov = addrs rest := by simp [hiov, hv]
  have hmin : 0 < min n u.resid := by omega
  refine ⟨mem', ?_, haddrs ▸ hmem⟩
  rw [uiomoveLoop_skip hdone hiov hv, if_neg hrest, heq]
  exact congrArg (fun u' => Except.ok (mem', u')) (Uio.after_tail hiov hv hmin)

theorem LoopExact.move (hdone : ¬(n = 0 ∨ u.resid = 0)) (hiov : u.iov = v :: rest)
    (hv : v.len ≠ 0) (hr : u.resid < 2 ^ 32) (hsum : u.resid ≤ (addrs u.iov).length)
    (hle : min v.len n ≤ u.resid)
    (h : LoopExact fuel (transfer u.rw mem ptr v.kbase (min v.len n)) (ptr + min v.len n)
      (n - min v.len n) (u.after (min v.len n))) : LoopExact (fuel + 1) mem ptr n u := by
  obtain ⟨mem', heq, hmem⟩ := h
  have hword : word32 (u.resid + 2 ^ 32 - min v.len n) = u.resid - min v.len n := by
    unfold word32
    omega
  have hmin : min (n - min v.len n) (u.after (min v.len n)).resid =
      min n u.resid - min v.len n := by
    change min (n - min v.len n) (u.resid - min v.len n) = min n u.resid - min v.len n
    omega
  have htake : List.range' v.kbase (min v.len n) = (addrs u.iov).take (min v.len n) := by
    rw [hiov, take_addrs (Nat.min_le_left _ _)]
  rw [hmin] at heq hmem
  refine ⟨mem', ?_, fun hapart => ?_⟩
  · rw [Uio.after_after, Nat.add_sub_cancel' (by omega)] at heq
    rw [uiomoveLoop_move hdone hiov hv, hword]
    exact heq
  · have haddrs : addrs (u.after (min v.len n)).iov = (addrs u.iov).drop (min v.len n) :=
      addrs_advance
    rw [haddrs, transfer_eq, htake] at hmem
    rw [hmem (hapart.drop _)]
    exact placeAll_moves hapart (by omega) (Nat.min_le_left _ _) (by omega)

/-- What a call does if the loop stops at `uio_resid`. -/
theorem uiomoveLoop_eq (mem : ℕ → UInt8) (ptr : ℕ) (hfuel : n + u.iov.length < fuel)
    (hr : u.resid < 2 ^ 32) (hsum : u.resid ≤ (addrs u.iov).length)
    (hstop : StopsAtResid n u.resid u.iov) : LoopExact fuel mem ptr n u := by
  induction fuel generalizing mem ptr n u with
  | zero => exact absurd hfuel (Nat.not_lt_zero _)
  | succ fuel ih =>
    by_cases hdone : n = 0 ∨ u.resid = 0
    · exact .done hdone
    have hresid : u.resid ≠ 0 := fun h => hdone (Or.inr h)
    cases hiov : u.iov with
    | nil =>
      rw [hiov, addrs_nil] at hsum
      exact absurd (Nat.le_zero.mp hsum) hresid
    | cons v rest =>
      by_cases hv : v.len = 0
      · rw [hiov] at hfuel hsum hstop
        have hsum' : u.resid ≤ (addrs rest).length := by simpa [hv] using hsum
        have hrest : rest ≠ [] := by
          rintro rfl
          exact hresid (Nat.le_zero.mp hsum')
        refine .skip hdone hiov hv hrest (ih mem ptr (Nat.lt_of_succ_lt_succ hfuel) hr hsum' ?_)
        exact hstop.tail hresid hv
      · have hle : min v.len n ≤ u.resid := StopsAtResid.min_le (hiov ▸ hstop) hresid
        have hlen : (u.after (min v.len n)).iov.length = u.iov.length := by
          rw [Uio.after, hiov, advance_of_le (by omega) (Nat.min_le_left _ _)]
          rfl
        have hleft : (u.after (min v.len n)).resid ≤
            (addrs (u.after (min v.len n)).iov).length := by
          rw [Uio.after, addrs_advance, List.length_drop]
          exact Nat.sub_le_sub_right hsum _
        refine .move hdone hiov hv hr hsum hle (ih _ _ (by omega) ?_ hleft (hstop.advance hle))
        exact (Nat.sub_le _ _).trans_lt hr

/-! ## Calls that move too much -/

/-- The loop never goes back in the iovecs. -/
theorem uiomoveLoop_length_le (h : uiomoveLoop fuel mem ptr n u = .ok (mem', u')) :
    (addrs u'.iov).length ≤ (addrs u.iov).length := by
  induction fuel generalizing mem ptr n u with
  | zero => cases h
  | succ fuel ih =>
    by_cases hdone : n = 0 ∨ u.resid = 0
    · rw [uiomoveLoop_done hdone] at h
      cases h
      exact le_rfl
    cases hiov : u.iov with
    | nil =>
      rw [uiomoveLoop, if_neg hdone, hiov] at h
      cases h
    | cons v rest =>
      by_cases hv : v.len = 0
      · rw [uiomoveLoop_skip hdone hiov hv] at h
        split_ifs at h
        simpa [hv] using ih h
      · rw [uiomoveLoop_move hdone hiov hv] at h
        refine (ih h).trans ?_
        rw [Uio.after, addrs_advance, List.length_drop, hiov]
        exact Nat.sub_le _ _

/-- If the loop does not stop at `uio_resid`, more bytes are moved. -/
theorem uiomoveLoop_overshoots (hstop : ¬StopsAtResid n u.resid u.iov) (hr : u.resid < 2 ^ 32)
    (h : uiomoveLoop fuel mem ptr n u = .ok (mem', u')) :
    (addrs u'.iov).length + u.resid < (addrs u.iov).length := by
  induction fuel generalizing mem ptr n u with
  | zero => cases h
  | succ fuel ih =>
    obtain ⟨hn, hends⟩ := not_or.mp hstop
    have hresid : u.resid ≠ 0 := fun h0 => hends ⟨0, h0.symm⟩
    have hdone : ¬(n = 0 ∨ u.resid = 0) := by omega
    cases hiov : u.iov with
    | nil =>
      rw [uiomoveLoop, if_neg hdone, hiov] at h
      cases h
    | cons v rest =>
      rw [hiov] at hstop
      by_cases hv : v.len = 0
      · rw [uiomoveLoop_skip hdone hiov hv] at h
        split_ifs at h
        have hstop' : ¬StopsAtResid n u.resid rest := fun hs =>
          hstop (.cons (by rwa [hv]) (hv.trans_le (Nat.zero_le _)) (not_le.mp hn))
        have hih := ih (u := { u with iov := rest }) hstop' hr h
        simpa [hv] using hih
      · rw [uiomoveLoop_move hdone hiov hv] at h
        have hlen : (addrs (v :: rest)).length = v.len + (addrs rest).length := by simp
        have hdrop : (addrs (u.after (min v.len n)).iov).length =
            (addrs (v :: rest)).length - min v.len n := by
          rw [Uio.after, addrs_advance, List.length_drop, hiov]
        rcases Nat.lt_or_ge u.resid (min v.len n) with hlt | hge
        · have hle := uiomoveLoop_length_le h
          change (addrs u'.iov).length ≤ (addrs (u.after (min v.len n)).iov).length at hle
          omega
        · have hsize : min v.len n = v.len := by omega
          have hword : word32 (u.resid + 2 ^ 32 - v.len) = u.resid - v.len := by
            unfold word32
            omega
          rw [hsize] at h hdrop
          rw [hword] at h
          have hstop' : ¬StopsAtResid (n - v.len) (u.after v.len).resid (u.after v.len).iov := by
            intro hs
            refine hstop (.cons ?_ (by omega) (not_le.mp hn))
            by_cases hleft : u.resid - v.len = 0
            · exact Or.inr ⟨0, hleft.symm⟩
            · rw [Uio.after, hiov, advance_of_le (Nat.pos_of_ne_zero hv) le_rfl] at hs
              exact hs.tail hleft (Nat.sub_self _)
          have hih : (addrs u'.iov).length + (u.resid - v.len) <
              (addrs (u.after v.len).iov).length :=
            ih (u := u.after v.len) hstop' ((Nat.sub_le _ _).trans_lt hr) h
          omega

end Loop

/-! ## Calls -/

/-- What `uiomove` promises of a call for `n` bytes : it moves `min n uio_resid` bytes in order, and
keeps its books; and consecutive calls for `n` bytes together do the same. -/
structure MovesExactly (n : ℕ) (u : Uio) : Prop where
  one : ∀ mem ptr, ∃ mem' u', uiomove mem ptr n u = .ok (mem', u') ∧
    u'.resid = u.resid - min n u.resid ∧ u'.offset = u.offset + min n u.resid ∧ u'.rw = u.rw ∧
    addrs u'.iov = (addrs u.iov).drop (min n u.resid) ∧
    (Apart ptr n (addrs u.iov) →
      mem' = placeAll mem (moves u.rw ptr ((addrs u.iov).take (min n u.resid))) mem)
  split : ∀ mem ptr ns, ns.sum = n →
    (uiomoves mem ptr ns u).map Prod.snd = (uiomove mem ptr n u).map Prod.snd ∧
    (Apart ptr n (addrs u.iov) → uiomoves mem ptr ns u = uiomove mem ptr n u)

section Calls

variable {u : Uio} {n : ℕ}

theorem uiomove_eq (mem : ℕ → UInt8) (ptr : ℕ) (hr : u.resid < 2 ^ 32)
    (hsum : u.resid ≤ (addrs u.iov).length) (hstop : StopsAtResid n u.resid u.iov) :
    ∃ mem', uiomove mem ptr n u = .ok (mem', u.after (min n u.resid)) ∧
      (Apart ptr n (addrs u.iov) →
        mem' = placeAll mem (moves u.rw ptr ((addrs u.iov).take (min n u.resid))) mem) :=
  uiomoveLoop_eq mem ptr (Nat.lt_succ_self _) hr hsum hstop

/-- Consecutive calls do what one call does. -/
theorem uiomoves_eq (mem : ℕ → UInt8) (ptr : ℕ) (ns : List ℕ) (hr : u.resid < 2 ^ 32)
    (hsum : u.resid ≤ (addrs u.iov).length) (hstop : StopsAtResid ns.sum u.resid u.iov) :
    ∃ mem', uiomoves mem ptr ns u = .ok (mem', u.after (min ns.sum u.resid)) ∧
      (Apart ptr ns.sum (addrs u.iov) →
        mem' = placeAll mem (moves u.rw ptr ((addrs u.iov).take (min ns.sum u.resid))) mem) := by
  induction ns generalizing mem ptr u with
  | nil =>
    refine ⟨mem, ?_, fun _ => ?_⟩
    · rw [List.sum_nil, Nat.zero_min, Uio.after_zero, uiomoves]
    · rw [List.sum_nil, Nat.zero_min, List.take_zero, moves_nil, placeAll_nil]
  | cons n ns ih =>
    rw [List.sum_cons] at hstop ⊢
    obtain ⟨mem₁, heq₁, hmem₁⟩ :=
      uiomove_eq mem ptr hr hsum (hstop.mono (Nat.le_add_right n ns.sum))
    have hstop' : StopsAtResid ns.sum (u.resid - min n u.resid)
        (advance u.iov (min n u.resid)) := by
      rcases Nat.le_total n u.resid with hle | hge
      · rw [Nat.min_eq_left hle]
        have := hstop.advance hle
        rwa [Nat.add_sub_cancel_left] at this
      · exact Or.inr ⟨0, (Nat.sub_eq_zero_of_le (Nat.le_min.mpr ⟨hge, le_rfl⟩)).symm⟩
    have haddrs : addrs (u.after (min n u.resid)).iov = (addrs u.iov).drop (min n u.resid) :=
      addrs_advance
    have hsum' : (u.after (min n u.resid)).resid ≤
        (addrs (u.after (min n u.resid)).iov).length := by
      rw [haddrs, List.length_drop]
      exact Nat.sub_le_sub_right hsum _
    obtain ⟨mem₂, heq₂, hmem₂⟩ :=
      ih mem₁ (ptr + n) ((Nat.sub_le _ _).trans_lt hr) hsum' hstop'
    have hmin : min ns.sum (u.after (min n u.resid)).resid =
        min (n + ns.sum) u.resid - min n u.resid := by
      change min ns.sum (u.resid - min n u.resid) = _
      omega
    rw [hmin] at heq₂ hmem₂
    refine ⟨mem₂, ?_, fun hapart => ?_⟩
    · rw [uiomoves, heq₁, ok_bind, heq₂, Uio.after_after, Nat.add_sub_cancel' (by omega)]
    · have hapart₂ : Apart (ptr + n) ns.sum (addrs (u.after (min n u.resid)).iov) := by
        intro x hx hin
        rw [haddrs] at hx
        exact hapart x (List.mem_of_mem_drop hx) (by omega)
      rw [hmem₂ hapart₂, hmem₁ fun x hx hin => hapart x hx (by omega), haddrs]
      rcases Nat.le_total n u.resid with hle | hge
      · rw [Nat.min_eq_left hle]
        exact placeAll_moves hapart (by omega) (Nat.min_le_left _ _) (by omega)
      · have hzero : min (n + ns.sum) u.resid - min n u.resid = 0 := by omega
        have hall : min n u.resid = min (n + ns.sum) u.resid := by omega
        rw [hzero, List.take_zero, moves_nil, placeAll_nil, hall]

/-- A call keeps its promises exactly if `n` is at most `uio_resid`, or an iovec ends where
`uio_resid` bytes do. -/
theorem uiomove_exact_iff (hr : u.resid < 2 ^ 32) (hsum : u.resid ≤ (u.iov.map Iovec.len).sum) :
    MovesExactly n u ↔
      n ≤ u.resid ∨ ∃ k, ((u.iov.take k).map Iovec.len).sum = u.resid := by
  rw [← length_addrs] at hsum
  refine ⟨fun h => ?_, fun hstop => ⟨fun mem ptr => ?_, fun mem ptr ns hns => ?_⟩⟩
  · by_contra hstop
    obtain ⟨mem', u', heq, -, -, -, hiov, -⟩ := h.one (fun _ => 0) 0
    have hlt := uiomoveLoop_overshoots hstop hr heq
    rw [hiov, List.length_drop] at hlt
    omega
  · obtain ⟨mem', heq, hmem⟩ := uiomove_eq mem ptr hr hsum hstop
    exact ⟨mem', _, heq, rfl, rfl, rfl, addrs_advance, hmem⟩
  · subst hns
    obtain ⟨mem₁, heq₁, hmem₁⟩ := uiomove_eq mem ptr hr hsum hstop
    obtain ⟨mem₂, heq₂, hmem₂⟩ := uiomoves_eq mem ptr ns hr hsum hstop
    rw [heq₁, heq₂]
    refine ⟨rfl, fun hapart => ?_⟩
    rw [hmem₁ hapart, hmem₂ hapart]

end Calls

/-- A buffer of four bytes, of which two are to be transferred. -/
def shortRead : Uio :=
  ⟨[⟨100, 4⟩], 0, 2, .read⟩

theorem uiomove_exact_iff_shortRead : MovesExactly 2 shortRead :=
  (uiomove_exact_iff (by decide) (by decide)).mpr (Or.inl le_rfl)

/-- The read of four bytes moves all four, and `uio_resid` wraps. -/
theorem uiomove_wraps : ¬MovesExactly 4 shortRead ∧
    ∀ mem, (uiomove mem 200 4 shortRead).map Prod.snd = .ok ⟨[⟨104, 0⟩], 4, 4294967294, .read⟩ := by
  have hwraps : ∀ mem, (uiomove mem 200 4 shortRead).map Prod.snd =
      .ok ⟨[⟨104, 0⟩], 4, 4294967294, .read⟩ := fun _ => rfl
  refine ⟨fun h => ?_, hwraps⟩
  obtain ⟨mem', u', heq, hresid, -⟩ := h.one (fun _ => 0) 200
  have hu := hwraps fun _ => 0
  rw [heq] at hu
  cases hu
  exact absurd hresid (by decide)

/-! ## The model without addresses -/

/-- `w` has the lengths of the buffers only, and the bytes : those that are still to be written, or
those that were read, into `done`. -/
structure Uio.Shows (u : Uio) (mem : ℕ → UInt8) (done : List ℕ) (w : OS161.Uio) : Prop where
  iov : w.uioIov.sum = (addrs u.iov).length
  offset : w.uioOffset = u.offset
  resid : w.uioResid = u.resid
  rw : w.uioRw = u.rw
  bytes : w.bytes = match u.rw with
    | .read => done.map mem
    | .write => (addrs u.iov).map mem

/-- As long as the bytes fit, a call does the same in both models. -/
theorem Uio.Shows.uiomove {u : Uio} {mem : ℕ → UInt8} {done : List ℕ} {w : OS161.Uio} {ptr n : ℕ}
    (hw : u.Shows mem done w) (hn : n ≤ u.resid) (hr : u.resid < 2 ^ 32)
    (hsum : u.resid ≤ (addrs u.iov).length) (hnd : (done ++ addrs u.iov).Nodup)
    (hap : Apart ptr n (addrs u.iov)) :
    ∃ mem' buf w', SysSpace.uiomove mem ptr n u = .ok (mem', u.after n) ∧
      OS161.uiomove mem ptr n w = .ok (buf, w') ∧
      (∀ x, ptr ≤ x → x < ptr + n → buf x = mem' x) ∧
      (u.after n).Shows mem' (done ++ (addrs u.iov).take n) w' := by
  obtain ⟨mem', heq, hmem⟩ := uiomove_eq mem ptr hr hsum (Or.inl hn)
  rw [Nat.min_eq_left hn] at heq hmem
  have hmem := hmem hap
  obtain ⟨hrw, hbytes⟩ := And.intro hw.rw hw.bytes
  rw [← hw.resid] at hn hr hsum
  obtain ⟨iov', hsum', heq'⟩ := OS161.uiomove_eq mem ptr hr hn (hw.iov ▸ hsum)
  have hlen : ((addrs u.iov).take n).length = n := List.length_take_of_le (hn.trans hsum)
  have hiov : iov'.sum = (addrs (u.after n).iov).length := by
    rw [Uio.after, addrs_advance, List.length_drop, hsum', hw.iov]
  have hres := (OS161.Uio.uioResid_transfer mem ptr hr hn).trans (congrArg (· - n) hw.resid)
  refine ⟨mem', _, _, heq, heq', ?_⟩
  cases h : u.rw with
  | read =>
    simp only [h, moves, hlen] at hmem hbytes hrw
    have hkeep : ∀ x ∉ (addrs u.iov).take n, mem' x = mem x := by
      intro x hx
      rw [hmem, placeAll_of_ne]
      rintro p hp rfl
      exact hx (List.of_mem_zip hp).2
    have hgot : ((addrs u.iov).take n).map mem' = (List.range' ptr n).map mem := by
      rw [hmem, map_placeAll ((List.nodup_append.mp hnd).2.1.sublist (List.take_sublist _ _))
        (by rw [List.length_range', hlen])]
    have hdone : done.map mem' = done.map mem := List.map_congr_left fun x hx => hkeep x fun hx' =>
      (List.nodup_append.mp hnd).2.2 x hx x (List.mem_of_mem_take hx') rfl
    refine ⟨fun x h1 h2 => ?_, hiov, ?_, hres, ?_, ?_⟩ <;>
      simp only [OS161.Uio.transfer, hrw, Uio.after, h, hw.offset]
    · exact (hkeep x fun hx => hap x (List.mem_of_mem_take hx) ⟨h1, h2⟩).symm
    · rw [List.map_append, hgot, hbytes, hdone, OS161.Uio.slice, List.range'_eq_map_range,
        List.map_map]
      rfl
  | write =>
    simp only [h, moves, hlen] at hmem hbytes hrw
    have hgot : (List.range' ptr n).map mem' = ((addrs u.iov).take n).map mem := by
      rw [hmem, map_placeAll List.nodup_range' (by rw [List.length_range', hlen])]
    refine ⟨fun x h1 h2 => ?_, hiov, ?_, hres, ?_, ?_⟩ <;>
      simp only [OS161.Uio.transfer, hrw, Uio.after, h, hw.offset]
    · have hx := congrArg (fun l => l.getD (x - ptr) 0) hgot
      rw [moveBytes, if_pos ⟨h1, h2⟩, hbytes]
      grind
    · rw [hbytes, ← List.map_drop, addrs_advance]
      refine List.map_congr_left fun x hx => ?_
      rw [hmem, placeAll_of_ne]
      rintro p hp rfl
      exact hap _ (List.mem_of_mem_drop hx) (List.mem_range'_1.mp (List.of_mem_zip hp).2)

end SysSpace

end OS161
