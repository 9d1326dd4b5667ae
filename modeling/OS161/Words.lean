import OS161.Basic

/-!
# Words in a buffer of bytes

A structure that is read from a device and written back is a sequence of bytes in memory, and
the code looks at it as a sequence of 32-bit words. The processor is big-endian. `getWord b i`
is word `i` of the buffer `b` and `setWord b i w` the buffer with that word replaced;
`getWord_setWord_self` and `getWord_setWord_ne` are all that is needed of them.
-/

namespace OS161

variable {b b' : ℕ → UInt8} {i j w : ℕ}

/-- Word `i` of a buffer. -/
def getWord (b : ℕ → UInt8) (i : ℕ) : ℕ :=
  (b (4 * i)).toNat * 2 ^ 24 + (b (4 * i + 1)).toNat * 2 ^ 16 + (b (4 * i + 2)).toNat * 2 ^ 8 +
    (b (4 * i + 3)).toNat

/-- A buffer with word `i` replaced. -/
def setWord (b : ℕ → UInt8) (i w : ℕ) : ℕ → UInt8 :=
  fun k => if k / 4 = i then UInt8.ofNat (w / 2 ^ (8 * (3 - k % 4))) else b k

theorem getWord_lt (b : ℕ → UInt8) (i : ℕ) : getWord b i < 2 ^ 32 := by
  have h0 := (b (4 * i)).toNat_lt
  have h1 := (b (4 * i + 1)).toNat_lt
  have h2 := (b (4 * i + 2)).toNat_lt
  have h3 := (b (4 * i + 3)).toNat_lt
  unfold getWord
  omega

@[simp] theorem getWord_zero (i : ℕ) : getWord (fun _ => 0) i = 0 := by
  simp [getWord]

/-- A word depends on its own four bytes. -/
theorem getWord_congr (h : ∀ k, k / 4 = i → b k = b' k) : getWord b i = getWord b' i := by
  unfold getWord
  rw [h (4 * i) (by omega), h (4 * i + 1) (by omega), h (4 * i + 2) (by omega),
    h (4 * i + 3) (by omega)]

@[simp] theorem getWord_setWord_self (b : ℕ → UInt8) (i w : ℕ) :
    getWord (setWord b i w) i = w % 2 ^ 32 := by
  have hbyte : ∀ r < 4, (setWord b i w (4 * i + r)).toNat = w / 2 ^ (8 * (3 - r)) % 256 := by
    intro r hr
    have h1 : (4 * i + r) / 4 = i := by omega
    have h2 : (4 * i + r) % 4 = r := by omega
    unfold setWord
    rw [if_pos h1, h2, UInt8.toNat_ofNat']
  have h0 := hbyte 0 (by decide)
  have h1 := hbyte 1 (by decide)
  have h2 := hbyte 2 (by decide)
  have h3 := hbyte 3 (by decide)
  unfold getWord
  rw [Nat.add_zero] at h0
  omega

theorem getWord_setWord_ne (h : j ≠ i) : getWord (setWord b i w) j = getWord b j := by
  refine getWord_congr fun k hk => ?_
  exact if_neg (by omega)

theorem getWord_setWord :
    getWord (setWord b i w) j = if j = i then w % 2 ^ 32 else getWord b j := by
  split_ifs with h
  · rw [h, getWord_setWord_self]
  · exact getWord_setWord_ne h

/-- Storing a word that was loaded moves its four bytes. -/
theorem setWord_getWord (b b' : ℕ → UInt8) (i j : ℕ) :
    setWord b i (getWord b' j) = moveBytes b' (4 * j) b (4 * i) 4 := by
  funext k
  unfold setWord moveBytes
  by_cases hk : k / 4 = i
  · have h0 := (b' (4 * j)).toNat_lt
    have h1 := (b' (4 * j + 1)).toNat_lt
    have h2 := (b' (4 * j + 2)).toNat_lt
    have h3 := (b' (4 * j + 3)).toNat_lt
    rw [if_pos hk, if_pos (by omega)]
    refine UInt8.toNat_inj.mp ?_
    rw [UInt8.toNat_ofNat']
    have hr : k - 4 * i = k % 4 := by omega
    have hcases : k % 4 = 0 ∨ k % 4 = 1 ∨ k % 4 = 2 ∨ k % 4 = 3 := by omega
    rw [hr]
    unfold getWord
    rcases hcases with h | h | h | h <;> rw [h]
    · change _ = (b' (4 * j)).toNat
      omega
    all_goals omega
  · rw [if_neg hk, if_neg (by omega)]

/-- The words of a block that is moved. -/
theorem getWord_moveBytes {src dst : ℕ → UInt8} {k n : ℕ} (h : i < n) :
    getWord (moveBytes src (4 * j) dst (4 * k) (4 * n)) (k + i) = getWord src (j + i) := by
  have hbyte : ∀ r < 4, moveBytes src (4 * j) dst (4 * k) (4 * n) (4 * (k + i) + r) =
      src (4 * (j + i) + r) := by
    intro r hr
    refine (if_pos (by omega)).trans (congrArg src ?_)
    omega
  unfold getWord
  rw [hbyte 1 (by decide), hbyte 2 (by decide), hbyte 3 (by decide)]
  rw [show moveBytes src (4 * j) dst (4 * k) (4 * n) (4 * (k + i)) = src (4 * (j + i)) from
    hbyte 0 (by decide)]

end OS161
