import OS161.ByteMoves
import OS161.Words

/-!
# Copying memory

`memcpy` and `memmove` of the C library, which the kernel links too. Both copy words if the two
addresses and the length are multiples of the word size, and bytes otherwise. `memcpy` copies
upwards; `memmove` leaves a copy to a lower address to it and copies downwards otherwise.

`copyChar_eq` and `copyLong_eq` : an element is moved as the bytes it consists of. So each of the
four loops is one of the two of `ByteMoves`, and `memmove` reads every byte before it overwrites
it (`memmove_eq`).
-/

namespace OS161.Libc

open Function

/-- `sizeof(long)`. -/
def sizeofLong : ℕ :=
  4

/-- `d[i] = s[i]` for pointers to `char`. -/
def copyChar (d s : ℕ) (mem : ℕ → UInt8) (i : ℕ) : ℕ → UInt8 :=
  update mem (word32 (d + i)) (mem (word32 (s + i)))

/-- `d[i] = s[i]` for aligned pointers to `long`. -/
def copyLong (d s : ℕ) (mem : ℕ → UInt8) (i : ℕ) : ℕ → UInt8 :=
  setWord mem (word32 (d + sizeofLong * i) / sizeofLong)
    (getWord mem (word32 (s + sizeofLong * i) / sizeofLong))

/-- The common case, in which a copy goes by words. -/
def Aligned (dst src len : ℕ) : Prop :=
  dst % sizeofLong = 0 ∧ src % sizeofLong = 0 ∧ len % sizeofLong = 0

instance (dst src len : ℕ) : Decidable (Aligned dst src len) :=
  inferInstanceAs (Decidable (_ ∧ _))

/-- `memcpy` : the pointer it returns and the memory after it. -/
def memcpy (mem : ℕ → UInt8) (dst src len : ℕ) : ℕ × (ℕ → UInt8) :=
  if Aligned dst src len then
    (dst, countUp (copyLong dst src) (len / sizeofLong) mem)
  else
    (dst, countUp (copyChar dst src) len mem)

/-- `memmove` : the pointer it returns and the memory after it. -/
def memmove (mem : ℕ → UInt8) (dst src len : ℕ) : ℕ × (ℕ → UInt8) :=
  if dst < src then
    memcpy mem dst src len
  else if Aligned dst src len then
    (dst, countDown (copyLong dst src) (len / sizeofLong) mem)
  else
    (dst, countDown (copyChar dst src) len mem)

section Copies

variable {dst src len i : ℕ}

theorem copyChar_eq (hdst : dst + len ≤ 2 ^ 32) (hsrc : src + len ≤ 2 ^ 32) (hi : i < len)
    (mem : ℕ → UInt8) :
    copyChar dst src mem i = moveBytes mem (src + 1 * i) mem (dst + 1 * i) 1 := by
  unfold copyChar word32
  rw [Nat.mod_eq_of_lt (by omega), Nat.mod_eq_of_lt (by omega), moveBytes_one, one_mul]

theorem copyLong_eq (hdst : dst + len ≤ 2 ^ 32) (hsrc : src + len ≤ 2 ^ 32)
    (hal : Aligned dst src len) (hi : i < len / sizeofLong) (mem : ℕ → UInt8) :
    copyLong dst src mem i =
      moveBytes mem (src + sizeofLong * i) mem (dst + sizeofLong * i) sizeofLong := by
  obtain ⟨hd, hs, hl⟩ := hal
  unfold sizeofLong at hd hs hl hi
  unfold copyLong word32 sizeofLong
  rw [setWord_getWord, Nat.mod_eq_of_lt (by omega), Nat.mod_eq_of_lt (by omega),
    Nat.mul_div_cancel' (by omega), Nat.mul_div_cancel' (by omega)]

/-- The length of an aligned copy is that of its words. -/
theorem Aligned.mul_div (h : Aligned dst src len) : sizeofLong * (len / sizeofLong) = len :=
  Nat.mul_div_cancel' (Nat.dvd_of_mod_eq_zero h.2.2)

/-- Upwards, to a lower address or behind the end of the source. -/
theorem memcpy_eq (hdst : dst + len ≤ 2 ^ 32) (hsrc : src + len ≤ 2 ^ 32)
    (h : dst ≤ src ∨ src + len ≤ dst) (mem : ℕ → UInt8) :
    memcpy mem dst src len = (dst, moveBytes mem src mem dst len) := by
  unfold memcpy
  split_ifs with hal
  · rw [countUp_eq (fun i hi => copyLong_eq hdst hsrc hal hi) (by rwa [hal.mul_div]), hal.mul_div]
  · rw [countUp_eq (fun i hi => copyChar_eq hdst hsrc hi) (by rwa [one_mul]), one_mul]

theorem memmove_eq (hdst : dst + len ≤ 2 ^ 32) (hsrc : src + len ≤ 2 ^ 32) (mem : ℕ → UInt8) :
    memmove mem dst src len = (dst, moveBytes mem src mem dst len) := by
  unfold memmove
  split_ifs with hlt hal
  · exact memcpy_eq hdst hsrc (Or.inl hlt.le) mem
  · rw [countDown_eq (fun i hi => copyLong_eq hdst hsrc hal hi) (not_lt.mp hlt), hal.mul_div]
  · rw [countDown_eq (fun i hi => copyChar_eq hdst hsrc hi) (not_lt.mp hlt), one_mul]

end Copies

/-- `memmove` is a simultaneous copy : every byte of the destination is the byte that the source
held before, and no other byte changes. -/
theorem memmove_simultaneous (mem : ℕ → UInt8) {dst src len : ℕ} (hdst : dst + len ≤ 2 ^ 32)
    (hsrc : src + len ≤ 2 ^ 32) :
    (∀ i < len, (memmove mem dst src len).2 (dst + i) = mem (src + i)) ∧
      ∀ a, a < dst ∨ dst + len ≤ a → (memmove mem dst src len).2 a = mem a := by
  rw [memmove_eq hdst hsrc]
  constructor
  · intro i hi
    refine (if_pos (by omega)).trans ?_
    rw [Nat.add_sub_cancel_left]
  · intro a ha
    exact if_neg (by omega)

/-- Six bytes that are moved up by two, over themselves. -/
theorem memmove_simultaneous_overlap :
    (memmove UInt8.ofNat 5 3 6).2 10 = 8 ∧ (memmove UInt8.ofNat 5 3 6).2 11 = 11 := by
  obtain ⟨hin, hout⟩ := memmove_simultaneous UInt8.ofNat (show 5 + 6 ≤ 2 ^ 32 by decide)
    (show 3 + 6 ≤ 2 ^ 32 by decide)
  exact ⟨hin 5 (by decide), hout 11 (Or.inr (by decide))⟩

end OS161.Libc
