import OS161.Basic

/-!
# `read` and `write` on user memory

`sys_write` and `sys_read` walk the buffer byte by byte with an `int` index, without asking
where it lies. The model records every address the kernel dereferences (`UserCall.touched`).
`copycheck` is what the other calls go through, and `blockCheck_ok_iff` says what it accepts :
the ranges that are not empty and lie in user space.

The two calls stay in user memory, and report a range that does not, exactly if the range does
lie in user space, or they do not walk it at all : the descriptor is not supported, or the size
is not a positive `int` (`file_call_user_only_iff`).
-/

namespace OS161

/-! ## The calls -/

/-- Memory and console. `back k` says whether the access number `k` of a call comes back : it
does not if the fault it causes ends the process or stops the kernel. -/
structure Machine where
  mem : ℕ → UInt8
  back : ℕ → Bool
  input : ℕ → UInt8
  output : List UInt8

/-- A call that is under way, with the addresses it has dereferenced, newest first. -/
structure UserCall extends Machine where
  touched : List ℕ

/-- How a loop over the buffer ends : at its end, by a `return` at index `i`, or in an access
that does not come back. -/
inductive LoopEnd
  | done
  | early (i : ℕ)
  | stuck
  deriving DecidableEq, Repr

/-- The address of `p[i]`. -/
def bufAddress (buf : BitVec 32) (i : ℕ) : ℕ :=
  (buf + BitVec.ofNat 32 i).toNat

namespace UserCall

/-- Dereference an address. -/
def touch (s : UserCall) (a : ℕ) : Bool × UserCall :=
  (s.back s.touched.length, { s with touched := a :: s.touched })

/-- `kprintf` of a text. -/
def kprintf (s : UserCall) (text : String) : UserCall :=
  { s with output := s.output ++ text.toUTF8.toList }

end UserCall

/-- The loop of `sys_write`, with `n` bytes to go from index `i` on. -/
def sysWriteLoop (buf : BitVec 32) : ℕ → ℕ → UserCall → LoopEnd × UserCall
  | 0, _, s => (.done, s)
  | n + 1, i, s =>
    match s.touch (bufAddress buf i) with
    | (false, s) => (.stuck, s)
    | (true, s) =>
      sysWriteLoop buf n (i + 1) { s with output := s.output ++ [s.mem (bufAddress buf i)] }

/-- The loop of `sys_read`. A `char` is signed. -/
def sysReadLoop (buf : BitVec 32) : ℕ → ℕ → UserCall → LoopEnd × UserCall
  | 0, _, s => (.done, s)
  | n + 1, i, s =>
    match s.touch (bufAddress buf i) with
    | (false, s) => (.stuck, s)
    | (true, s) =>
      let s := { s with mem := Function.update s.mem (bufAddress buf i) (s.input i) }
      match s.touch (bufAddress buf i) with
      | (false, s) => (.stuck, s)
      | (true, s) =>
        if 128 ≤ (s.mem (bufAddress buf i)).toNat then (.early i, s)
        else sysReadLoop buf n (i + 1) s

/-- What the two functions return after the loop, or `none` if they do not. -/
def LoopEnd.retval (size : BitVec 32) : LoopEnd → Option ℤ
  | .done => some size.toInt
  | .early i => some i
  | .stuck => none

/-- `sys_write`. -/
def sysWrite (fd buf size : BitVec 32) (s : UserCall) : Option ℤ × UserCall :=
  if fd.toInt ≠ 1 ∧ fd.toInt ≠ 2 then
    (some (-1), s.kprintf "sys_write supported only to stdout\n")
  else
    let (r, s) := sysWriteLoop buf size.toInt.toNat 0 s
    (r.retval size, s)

/-- `sys_read`. -/
def sysRead (fd buf size : BitVec 32) (s : UserCall) : Option ℤ × UserCall :=
  if fd.toInt ≠ 0 then
    (some (-1), s.kprintf "sys_read supported only to stdin\n")
  else
    let (r, s) := sysReadLoop buf size.toInt.toNat 0 s
    (r.retval size, s)

/-- The two cases of the switch in `syscall` that take a buffer. -/
inductive FileCall
  | read
  | write
  deriving DecidableEq, Repr

/-- The function a case calls. -/
def FileCall.run : FileCall → BitVec 32 → BitVec 32 → BitVec 32 → UserCall → Option ℤ × UserCall
  | .read => sysRead
  | .write => sysWrite

/-- `syscall`, for these two cases : the result that goes back to the user, or `none` if the
call does not return, and the state with what it dereferenced. -/
def syscall (call : FileCall) (fd buf size : BitVec 32) (m : Machine) :
    Option (Except Errno ℤ) × UserCall :=
  let (retval, s) := call.run fd buf size ⟨m, []⟩
  (retval.map fun retval => if retval < 0 then .error Errno.ENOSYS else .ok retval, s)

/-! ## What the other calls check -/

/-- The bytes of `[buf, buf + size)` are in user space. -/
def InUserSpace (buf size : BitVec 32) : Prop :=
  ∀ a, buf.toNat ≤ a → a < buf.toNat + size.toNat → a < userspacetop

/-- `copycheck` : the length that can be copied, or `EFAULT`. -/
def copycheck (userptr len : BitVec 32) : Except Errno (BitVec 32) :=
  let bot := userptr
  let top := bot + len - 1
  if top.toNat < bot.toNat then .error Errno.EFAULT
  else if userspacetop ≤ bot.toNat then .error Errno.EFAULT
  else if userspacetop ≤ top.toNat then .ok (BitVec.ofNat 32 userspacetop - bot)
  else .ok len

/-- The check `copyin` and `copyout` make before they touch the block. -/
def blockCheck (userptr len : BitVec 32) : Except Errno Unit :=
  match copycheck userptr len with
  | .error e => .error e
  | .ok stoplen => if stoplen ≠ len then .error Errno.EFAULT else .ok ()

theorem inUserSpace_iff {buf size : BitVec 32} : InUserSpace buf size ↔
    size.toNat = 0 ∨ buf.toNat + size.toNat ≤ userspacetop := by
  constructor
  · intro h
    by_contra hno
    have := h (buf.toNat + size.toNat - 1) (by omega) (by omega)
    omega
  · intro h a h1 h2
    omega

/-- `copyin` and `copyout` accept the blocks that are not empty and lie in user space. -/
theorem blockCheck_ok_iff (buf size : BitVec 32) :
    blockCheck buf size = .ok () ↔ size ≠ 0 ∧ InUserSpace buf size := by
  have htop : (buf + size - 1).toNat = (buf.toNat + size.toNat + (2 ^ 32 - 1)) % 2 ^ 32 := by
    simp [BitVec.toNat_sub, BitVec.toNat_add]
    omega
  have hzero : size = 0 ↔ size.toNat = 0 := by
    rw [← BitVec.toNat_inj]
    rfl
  have hust : userspacetop = 2 ^ 31 := rfl
  rw [inUserSpace_iff, ne_eq, hzero, blockCheck, copycheck]
  simp only [htop, hust]
  split_ifs with hwrap hbot hover
  · simp only [false_iff]
    omega
  · simp only [false_iff]
    omega
  · -- The block that can be copied is shorter.
    have hstop : BitVec.ofNat 32 (2 ^ 31) - buf ≠ size := by
      intro heq
      have hnat := congrArg BitVec.toNat heq
      rw [BitVec.toNat_sub, BitVec.toNat_ofNat] at hnat
      omega
    simp only [ne_eq, hstop, not_false_eq_true, if_true, reduceCtorEq, false_iff]
    omega
  · simp only [ne_eq, not_true_eq_false, if_false, true_iff]
    omega

/-! ## The walk over the buffer -/

/-- A loop over the indices from `i` on, at most `n` of them, dereferences the bytes of the
buffer there and nothing else, and all of them if it comes to its end. -/
structure Walked (buf : BitVec 32) (n i : ℕ) (s : UserCall) (r : LoopEnd × UserCall) : Prop where
  keeps : ∀ a ∈ s.touched, a ∈ r.2.touched
  only : ∀ a ∈ r.2.touched, a ∈ s.touched ∨ ∃ j, i ≤ j ∧ j < i + n ∧ a = bufAddress buf j
  all : r.1 = .done → ∀ j, i ≤ j → j < i + n → bufAddress buf j ∈ r.2.touched
  empty : n = 0 → r.1 = .done

namespace Walked

variable {buf : BitVec 32} {n i : ℕ} {s s' : UserCall} {r : LoopEnd × UserCall}

theorem zero (buf : BitVec 32) (i : ℕ) (s : UserCall) : Walked buf 0 i s (.done, s) :=
  ⟨fun _ => id, fun _ => Or.inl, fun _ _ h1 h2 => absurd h2 (not_lt.mpr h1),
    fun _ => rfl⟩

/-- The loop is left at index `i`. -/
theorem leave {e : LoopEnd} (he : e ≠ .done)
    (hs : ∀ a, a ∈ s'.touched ↔ a ∈ s.touched ∨ a = bufAddress buf i) :
    Walked buf (n + 1) i s (e, s') where
  keeps a ha := (hs a).mpr (Or.inl ha)
  only a ha := ((hs a).mp ha).imp_right fun h => ⟨i, le_rfl, by omega, h⟩
  all h := absurd h he
  empty h := absurd h (Nat.succ_ne_zero n)

/-- The loop goes on from index `i`. -/
theorem next (hs : ∀ a, a ∈ s'.touched ↔ a ∈ s.touched ∨ a = bufAddress buf i)
    (h : Walked buf n (i + 1) s' r) : Walked buf (n + 1) i s r where
  keeps a ha := h.keeps a ((hs a).mpr (Or.inl ha))
  only a ha := by
    rcases h.only a ha with ha | ⟨j, h1, h2, rfl⟩
    · exact ((hs a).mp ha).imp_right fun h => ⟨i, le_rfl, by omega, h⟩
    · exact Or.inr ⟨j, by omega, by omega, rfl⟩
  all hr j h1 h2 := by
    rcases Nat.eq_or_lt_of_le h1 with rfl | hlt
    · exact h.keeps _ ((hs _).mpr (Or.inr rfl))
    · exact h.all hr j hlt (by omega)
  empty h := absurd h (Nat.succ_ne_zero n)

end Walked

theorem sysWriteLoop_walked (buf : BitVec 32) :
    ∀ (n i : ℕ) (s : UserCall), Walked buf n i s (sysWriteLoop buf n i s)
  | 0, i, s => .zero buf i s
  | n + 1, i, s => by
    have hmem : ∀ a, a ∈ bufAddress buf i :: s.touched ↔ a ∈ s.touched ∨ a = bufAddress buf i :=
      fun a => List.mem_cons.trans or_comm
    unfold sysWriteLoop UserCall.touch
    cases s.back s.touched.length with
    | false => exact .leave (by decide) hmem
    | true => exact .next hmem (sysWriteLoop_walked buf n (i + 1) _)

theorem sysReadLoop_walked (buf : BitVec 32) :
    ∀ (n i : ℕ) (s : UserCall), Walked buf n i s (sysReadLoop buf n i s)
  | 0, i, s => .zero buf i s
  | n + 1, i, s => by
    have hmem : ∀ a, a ∈ bufAddress buf i :: s.touched ↔ a ∈ s.touched ∨ a = bufAddress buf i :=
      fun a => List.mem_cons.trans or_comm
    have hmem' : ∀ a, a ∈ bufAddress buf i :: bufAddress buf i :: s.touched ↔
        a ∈ s.touched ∨ a = bufAddress buf i := by
      intro a
      rw [List.mem_cons, hmem]
      tauto
    unfold sysReadLoop UserCall.touch
    cases s.back s.touched.length with
    | false => exact .leave (by decide) hmem
    | true =>
      dsimp only
      cases s.back (bufAddress buf i :: s.touched).length with
      | false => exact .leave (by decide) hmem'
      | true =>
        dsimp only
        split_ifs
        · exact .leave (by simp) hmem'
        · exact .next hmem' (sysReadLoop_walked buf n (i + 1) _)

/-- The descriptors a call works on. -/
def FileCall.Supports : FileCall → BitVec 32 → Prop
  | .read, fd => fd.toInt = 0
  | .write, fd => fd.toInt = 1 ∨ fd.toInt = 2

/-- On a descriptor it does not support, a call touches nothing and reports an error. -/
theorem syscall_unsupported {call : FileCall} {fd : BitVec 32} (h : ¬call.Supports fd)
    (buf size : BitVec 32) (m : Machine) : (syscall call fd buf size m).2.touched = [] ∧
      (syscall call fd buf size m).1 = some (.error Errno.ENOSYS) := by
  cases call with
  | read =>
    have hfd : fd.toInt ≠ 0 := h
    simp [syscall, FileCall.run, sysRead, hfd, UserCall.kprintf]
  | write =>
    have hfd : fd.toInt ≠ 1 ∧ fd.toInt ≠ 2 := not_or.mp h
    simp [syscall, FileCall.run, sysWrite, hfd, UserCall.kprintf]

/-- On one it supports, it walks over the buffer. -/
theorem syscall_supported {call : FileCall} {fd : BitVec 32} (h : call.Supports fd)
    (buf size : BitVec 32) (m : Machine) : ∃ r : LoopEnd × UserCall,
      Walked buf size.toInt.toNat 0 ⟨m, []⟩ r ∧ (syscall call fd buf size m).2 = r.2 ∧
      (syscall call fd buf size m).1 = (r.1.retval size).map fun retval =>
        if retval < 0 then .error Errno.ENOSYS else .ok retval := by
  cases call with
  | read =>
    have hfd : ¬fd.toInt ≠ 0 := not_not.mpr h
    refine ⟨_, sysReadLoop_walked buf _ 0 _, ?_⟩
    simp only [syscall, FileCall.run, sysRead, if_neg hfd, and_self]
  | write =>
    have hfd : ¬(fd.toInt ≠ 1 ∧ fd.toInt ≠ 2) := fun hno => h.elim hno.1 hno.2
    refine ⟨_, sysWriteLoop_walked buf _ 0 _, ?_⟩
    simp only [syscall, FileCall.run, sysWrite, if_neg hfd, and_self]

/-- A call dereferences only user memory, and reports an error if the range is not in user
space. -/
def UserOnly (buf size : BitVec 32) (r : Option (Except Errno ℤ) × UserCall) : Prop :=
  (∀ a ∈ r.2.touched, a < userspacetop) ∧
    (¬InUserSpace buf size → ∃ e, r.1 = some (.error e))

theorem bufAddress_eq {buf : BitVec 32} {i : ℕ} (h : buf.toNat + i < 2 ^ 32) :
    bufAddress buf i = buf.toNat + i := by
  rw [bufAddress, BitVec.toNat_add, BitVec.toNat_ofNat, Nat.add_mod_mod, Nat.mod_eq_of_lt h]

/-- A positive `int` size is the size. -/
theorem toInt_of_pos {size : BitVec 32} (h : 0 < size.toInt) :
    size.toInt = size.toNat ∧ size.toNat < 2 ^ 31 := by
  rw [BitVec.toInt_eq_toNat_cond] at h ⊢
  split_ifs at h ⊢ <;> omega

/-- A range that is not in user space and has a positive `int` size has a byte that the walk
comes to and that is not. -/
theorem exists_bad_address {buf size : BitVec 32} (hpos : 0 < size.toInt)
    (h : ¬InUserSpace buf size) :
    ∃ i < size.toInt.toNat, userspacetop ≤ bufAddress buf i := by
  obtain ⟨hint, hlt⟩ := toInt_of_pos hpos
  rw [inUserSpace_iff] at h
  have hust : userspacetop = 2 ^ 31 := rfl
  rcases Nat.lt_or_ge buf.toNat userspacetop with hbuf | hbuf
  · -- The range crosses the end of user space.
    refine ⟨userspacetop - buf.toNat, by omega, ?_⟩
    rw [bufAddress_eq (by omega)]
    omega
  · refine ⟨0, by omega, ?_⟩
    rw [bufAddress_eq (by omega)]
    omega

/-- For every descriptor, pointer and size, `read` and `write` keep to user memory exactly if
the range lies there, or they do not walk it : the descriptor is not supported, or the size is
not a positive `int`. -/
theorem file_call_user_only_iff (call : FileCall) (fd buf size : BitVec 32) (m : Machine) :
    UserOnly buf size (syscall call fd buf size m) ↔
      ¬call.Supports fd ∨ size.toInt ≤ 0 ∨ InUserSpace buf size := by
  by_cases hfd : call.Supports fd
  · obtain ⟨⟨e, s⟩, hwalk, hstate, hres⟩ := syscall_supported hfd buf size m
    unfold UserOnly
    rw [hstate, hres]
    constructor
    · rintro ⟨huser, herr⟩
      by_contra hno
      have hpos : 0 < size.toInt := by
        by_contra hle
        exact hno (Or.inr (Or.inl (not_lt.mp hle)))
      have hout : ¬InUserSpace buf size := fun hin => hno (Or.inr (Or.inr hin))
      obtain ⟨err, herr⟩ := herr hout
      cases e with
      | done =>
        obtain ⟨i, hi, hbad⟩ := exists_bad_address hpos hout
        have := huser _ (hwalk.all rfl i (Nat.zero_le i) (by omega))
        omega
      | early i =>
        cases herr
      | stuck => simp [LoopEnd.retval] at herr
    · rintro (hno | hneg | hin)
      · exact absurd hfd hno
      · have hn : size.toInt.toNat = 0 := Int.toNat_of_nonpos hneg
        rw [hn] at hwalk
        refine ⟨fun a ha => ?_, fun hout => ?_⟩
        · rcases hwalk.only a ha with ha | ⟨j, -, hj, -⟩
          · cases ha
          · omega
        · obtain rfl : e = .done := hwalk.empty rfl
          have hne : size.toInt ≠ 0 := by
            intro h0
            rw [BitVec.toInt_eq_toNat_cond] at h0
            refine hout (inUserSpace_iff.mpr (Or.inl ?_))
            split_ifs at h0 <;> omega
          refine ⟨Errno.ENOSYS, ?_⟩
          rw [LoopEnd.retval, Option.map_some, if_pos (by omega)]
      · refine ⟨fun a ha => ?_, fun hout => absurd hin hout⟩
        rcases hwalk.only a ha with ha | ⟨j, -, hj, rfl⟩
        · cases ha
        · obtain ⟨hint, hlt⟩ := toInt_of_pos (show 0 < size.toInt by omega)
          have hrange := inUserSpace_iff.mp hin
          have hust : userspacetop = 2 ^ 31 := rfl
          rw [bufAddress_eq (by omega)]
          omega
  · obtain ⟨htouched, hres⟩ := syscall_unsupported hfd buf size m
    exact ⟨fun _ => Or.inl hfd, fun _ => ⟨by simp [htouched], fun _ => ⟨_, hres⟩⟩⟩

/-- A machine on which every access comes back. -/
def Machine.small : Machine :=
  ⟨UInt8.ofNat, fun _ => true, fun _ => 65, []⟩

/-- A user program prints four bytes of the kernel, and overwrites one. -/
theorem file_call_kernel_memory :
    (syscall .write 1 0x80000000 4 .small).1 = some (.ok 4) ∧
    (syscall .write 1 0x80000000 4 .small).2.touched =
      [0x80000003, 0x80000002, 0x80000001, 0x80000000] ∧
    (syscall .write 1 0x80000000 4 .small).2.output = [0, 1, 2, 3] ∧
    ¬InUserSpace 0x80000000 4 ∧
    (syscall .read 0 0x80000000 1 .small).1 = some (.ok 1) ∧
    (syscall .read 0 0x80000000 1 .small).2.mem 0x80000000 = 65 := by
  refine ⟨rfl, rfl, rfl, ?_, rfl, rfl⟩
  rw [inUserSpace_iff]
  decide

end OS161
