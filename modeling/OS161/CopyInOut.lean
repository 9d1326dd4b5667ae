import OS161.ByteMoves
import OS161.Call
import OS161.UserMemory

/-!
# `copyinout.c`

The four functions copy between a buffer of the kernel and user memory. How user memory is reached
is a parameter (`UserPort`) : a load or a store through it succeeds, or ends in a fault that
`vm_fault` does not resolve, or does not come back because the process exits or the machine stops.
Every access is recorded, in user memory by its address and in the buffer by its index.

A fault that is not resolved is the business of `mips_trap` : in kernel mode it resumes at
`tm_badfaultfunc` if that is set, and panics otherwise (`CopyStop.trap`). The copies set it, so that
they come back with `EFAULT` (`protect`).

`copies_confined` : for every pointer and length, the range check lets the blocks through that end
below `USERSPACETOP`; strings are cut there; and no access leaves user space or the buffer, through
whatever port.
-/

namespace OS161

open Function

/-! ## Access to user memory -/

/-- What keeps kernel code from going on : a fault that is not resolved, the exit of the process,
or a halt of the machine. -/
inductive CopyStop
  | fatal
  | exited (status : ℤ)
  | halted (h : Halt)
  deriving DecidableEq, Repr

/-- How the kernel reads and writes a byte of user memory. -/
structure UserPort (σ : Type) where
  load : ℕ → Call Empty CopyStop σ UInt8
  store : ℕ → UInt8 → Call Empty CopyStop σ Unit

/-- A thread that copies : user memory, the buffer of the kernel, whether `tm_badfaultfunc` is set,
and what was accessed, newest first. -/
structure CopyState (σ : Type) where
  user : σ
  buf : ℕ → UInt8
  badfaultfunc : Bool
  userTouched : List ℕ
  bufTouched : List ℕ

/-- Code that copies. -/
abbrev Copy (σ α : Type) : Type :=
  Call Empty CopyStop (CopyState σ) α

/-- The end of `mips_trap`, for a fault in kernel mode. -/
def CopyStop.trap (badfaultfunc : Bool) : CopyStop → CopyStop
  | .fatal =>
    if badfaultfunc then .fatal
    else .halted (.panic "I can't handle this... I think I'll just die now...\n")
  | e => e

section Accesses

variable {σ : Type}

/-- An access to the byte of user memory at `a`. -/
def userAccessAt {α : Type} (a : ℕ) (access : Call Empty CopyStop σ α) : Copy σ α :=
  fun s => access s.user >>= fun r => .ok (r.1.mapError (CopyStop.trap s.badfaultfunc),
    { s with user := r.2, userTouched := a :: s.userTouched })

/-- A load from user memory. -/
def userLoad (port : UserPort σ) (a : ℕ) : Copy σ UInt8 :=
  userAccessAt a (port.load a)

/-- A store to user memory. -/
def userStore (port : UserPort σ) (a : ℕ) (b : UInt8) : Copy σ Unit :=
  userAccessAt a (port.store a b)

/-- A load from the kernel buffer. -/
def bufLoad (i : ℕ) : Copy σ UInt8 :=
  fun s => .ok (.ok (s.buf i), { s with bufTouched := i :: s.bufTouched })

/-- A store to the kernel buffer. -/
def bufStore (i : ℕ) (b : UInt8) : Copy σ Unit :=
  Call.modify fun s =>
    { s with buf := update s.buf i b, bufTouched := i :: s.bufTouched }

/-! ## The copies -/

/-- `dest[i] = src[i]`, which also tells the byte. -/
def copyByte (load : ℕ → Copy σ UInt8) (store : ℕ → UInt8 → Copy σ Unit) (i : ℕ) :
    Copy σ UInt8 := do
  let c ← load i
  store i c
  pure c

/-- `memcpy`. -/
def memcpy (load : ℕ → Copy σ UInt8) (store : ℕ → UInt8 → Copy σ Unit) (len : ℕ) : Copy σ Unit :=
  Call.forEach (fun i => copyByte load store i >>= fun _ => pure ()) (List.range len)

/-- The loop of `copystr`, with `fuel` bytes to go from index `i` on. -/
def copystrLoop (load : ℕ → Copy σ UInt8) (store : ℕ → UInt8 → Copy σ Unit)
    (maxlen stoplen : ℕ) : ℕ → ℕ → Copy σ (Except Errno ℕ)
  | 0, _ => pure (.error (if stoplen < maxlen then Errno.EFAULT else Errno.ENAMETOOLONG))
  | fuel + 1, i => do
    let c ← copyByte load store i
    if c = 0 then pure (.ok (i + 1))
    else copystrLoop load store maxlen stoplen fuel (i + 1)

/-- `copystr` : the length with the terminator, or an error. -/
def copystr (load : ℕ → Copy σ UInt8) (store : ℕ → UInt8 → Copy σ Unit) (maxlen stoplen : ℕ) :
    Copy σ (Except Errno ℕ) :=
  copystrLoop load store maxlen stoplen (min maxlen stoplen) 0

/-- A copy with `tm_badfaultfunc` set to `copyfail`, which jumps back and returns `EFAULT`. -/
def protect {α : Type} (m : Copy σ (Except Errno α)) : Copy σ (Except Errno α) := do
  Call.modify fun s => { s with badfaultfunc := true }
  let r ← m.attempt
  match r with
  | .ok result => do
    Call.modify fun s => { s with badfaultfunc := false }
    pure result
  | .error .fatal => do
    Call.modify fun s => { s with badfaultfunc := false }
    pure (.error Errno.EFAULT)
  | .error e => Call.fail e

/-- The body of `copyin` and `copyout`. -/
def copyBlock (load : ℕ → Copy σ UInt8) (store : ℕ → UInt8 → Copy σ Unit)
    (userptr len : BitVec 32) : Copy σ (Except Errno Unit) :=
  match blockCheck userptr len with
  | .error e => pure (.error e)
  | .ok _ => protect do
    memcpy load store len.toNat
    pure (.ok ())

/-- The body of `copyinstr` and `copyoutstr`. -/
def copyString (load : ℕ → Copy σ UInt8) (store : ℕ → UInt8 → Copy σ Unit)
    (userptr len : BitVec 32) : Copy σ (Except Errno ℕ) :=
  match copycheck userptr len with
  | .error e => pure (.error e)
  | .ok stoplen => protect (copystr load store len.toNat stoplen.toNat)

/-- `copyin`. -/
def copyin (port : UserPort σ) (usersrc len : BitVec 32) : Copy σ (Except Errno Unit) :=
  copyBlock (fun i => userLoad port (usersrc.toNat + i)) bufStore usersrc len

/-- `copyout`. -/
def copyout (port : UserPort σ) (userdest len : BitVec 32) : Copy σ (Except Errno Unit) :=
  copyBlock bufLoad (fun i => userStore port (userdest.toNat + i)) userdest len

/-- `copyinstr`. -/
def copyinstr (port : UserPort σ) (usersrc len : BitVec 32) : Copy σ (Except Errno ℕ) :=
  copyString (fun i => userLoad port (usersrc.toNat + i)) bufStore usersrc len

/-- `copyoutstr`. -/
def copyoutstr (port : UserPort σ) (userdest len : BitVec 32) : Copy σ (Except Errno ℕ) :=
  copyString bufLoad (fun i => userStore port (userdest.toNat + i)) userdest len

/-! ## The range check -/

section Check

variable {p n stoplen : BitVec 32}

theorem toNat_top (p n : BitVec 32) :
    (p + n - 1).toNat = (p.toNat + n.toNat + (2 ^ 32 - 1)) % 2 ^ 32 := by
  simp [BitVec.toNat_sub, BitVec.toNat_add]
  omega

/-- `copycheck` refuses what starts above user space and what wraps around, and otherwise cuts at
the end of user space. -/
theorem copycheck_eq (p n : BitVec 32) (hn : n.toNat ≠ 0) : copycheck p n =
    if userspacetop ≤ p.toNat ∨ 2 ^ 32 < p.toNat + n.toNat then .error Errno.EFAULT
    else .ok (BitVec.ofNat 32 (min n.toNat (userspacetop - p.toNat))) := by
  have hust : userspacetop = 2 ^ 31 := rfl
  unfold copycheck
  simp only [toNat_top, hust]
  split_ifs with hwrap hbad hbot hbad hover hbad hbad
  · rfl
  · omega
  · rfl
  · omega
  · omega
  · refine congrArg Except.ok (BitVec.eq_of_toNat_eq ?_)
    rw [BitVec.toNat_sub, BitVec.toNat_ofNat, BitVec.toNat_ofNat]
    omega
  · omega
  · refine congrArg Except.ok (BitVec.eq_of_toNat_eq ?_)
    rw [BitVec.toNat_ofNat]
    omega

/-- What `copycheck` lets through, cut to the length, ends in user space. -/
theorem copycheck_ok (h : copycheck p n = .ok stoplen) :
    p.toNat + min n.toNat stoplen.toNat ≤ userspacetop := by
  have hust : userspacetop = 2 ^ 31 := rfl
  unfold copycheck at h
  simp only [toNat_top, hust] at h ⊢
  split_ifs at h with hwrap hbot hover
  · rw [← Except.ok.inj h, BitVec.toNat_sub, BitVec.toNat_ofNat]
    omega
  · omega

theorem blockCheck_iff (hn : n.toNat ≠ 0) :
    blockCheck p n = .ok () ↔ p.toNat + n.toNat ≤ userspacetop := by
  have hzero : n ≠ 0 := fun h => hn (congrArg BitVec.toNat h)
  rw [blockCheck_ok_iff, inUserSpace_iff, or_iff_right hn]
  exact and_iff_right hzero

theorem blockCheck_error {e : Errno} (h : blockCheck p n = .error e) : e = Errno.EFAULT := by
  have hcheck : ∀ e', copycheck p n = .error e' → e' = Errno.EFAULT := by
    intro e' he
    unfold copycheck at he
    dsimp only at he
    split_ifs at he <;> exact (Except.error.inj he).symm
  unfold blockCheck at h
  cases hc : copycheck p n with
  | error e' =>
    rw [hc] at h
    exact (Except.error.inj h).symm.trans (hcheck e' hc)
  | ok stoplen =>
    rw [hc] at h
    dsimp only at h
    split_ifs at h
    exact (Except.error.inj h).symm

end Check

/-! ## Where the copies go -/

/-- The accesses so far were to user space, and to the first `n` bytes of the buffer. -/
structure Confined (n : ℕ) (s : CopyState σ) : Prop where
  user : ∀ a ∈ s.userTouched, a < userspacetop
  buf : ∀ i ∈ s.bufTouched, i < n

section Confined

variable {α : Type} {port : UserPort σ} {s : CopyState σ} {n a i p : ℕ}
  {load : ℕ → Copy σ UInt8} {store : ℕ → UInt8 → Copy σ Unit}

/-- A call that ends somehow, in a confined state. -/
abbrev StaysConfined (n : ℕ) (m : Copy σ α) (s : CopyState σ) : Prop :=
  m.Does (fun _ => False) s fun _ s' => Confined n s'

theorem userAccessAt_confined (h : Confined n s) (ha : a < userspacetop)
    (access : Call Empty CopyStop σ α) : StaysConfined n (userAccessAt a access) s := by
  unfold StaysConfined Call.Does userAccessAt
  rcases access s.user with e | r
  · exact e.elim
  · exact ⟨List.forall_mem_cons.mpr ⟨ha, h.user⟩, h.buf⟩

theorem bufLoad_confined (h : Confined n s) (hi : i < n) : StaysConfined n (bufLoad i) s :=
  ⟨h.user, List.forall_mem_cons.mpr ⟨hi, h.buf⟩⟩

theorem bufStore_confined (h : Confined n s) (hi : i < n) (b : UInt8) :
    StaysConfined n (bufStore i b) s :=
  ⟨h.user, List.forall_mem_cons.mpr ⟨hi, h.buf⟩⟩

/-- The loads and stores of a copy of `lim` bytes. -/
structure ConfinedAccess (n lim : ℕ) (load : ℕ → Copy σ UInt8) (store : ℕ → UInt8 → Copy σ Unit) :
    Prop where
  load : ∀ i < lim, ∀ s, Confined n s → StaysConfined n (load i) s
  store : ∀ i < lim, ∀ b s, Confined n s → StaysConfined n (store i b) s

theorem confinedAccess_in {lim : ℕ} (hp : p + lim ≤ userspacetop) (hn : lim ≤ n) :
    ConfinedAccess n lim (fun i => userLoad port (p + i)) bufStore where
  load i hi s hs := userAccessAt_confined hs (by omega) _
  store i hi b s hs := bufStore_confined hs (by omega) b

theorem confinedAccess_out {lim : ℕ} (hp : p + lim ≤ userspacetop) (hn : lim ≤ n) :
    ConfinedAccess n lim bufLoad (fun i => userStore port (p + i)) where
  load i hi s hs := bufLoad_confined hs (by omega)
  store i hi b s hs := userAccessAt_confined hs (by omega) _

namespace ConfinedAccess

variable {lim : ℕ}

theorem copyByte (h : ConfinedAccess n lim load store) (hi : i < lim) (hs : Confined n s) :
    StaysConfined n (copyByte load store i) s :=
  (h.load i hi s hs).bind (fun _ _ hs' => hs') fun c s₁ hs₁ =>
    (h.store i hi c s₁ hs₁).bind (fun _ _ hs' => hs') fun _ _ hs₂ => hs₂

theorem memcpy (h : ConfinedAccess n lim load store) (hs : Confined n s) :
    StaysConfined n (memcpy load store lim) s := by
  refine Call.Does.forRange (I := fun _ s => Confined n s) ?_ (fun _ h => h) hs
  intro i hi s hs
  refine (h.copyByte hi hs).bind (fun _ _ hs' => hs') fun _ _ hs' => hs'

theorem copystrLoop (h : ConfinedAccess n lim load store) (maxlen stoplen : ℕ) :
    ∀ (fuel i : ℕ) (s : CopyState σ), fuel + i ≤ lim → Confined n s →
      StaysConfined n (copystrLoop load store maxlen stoplen fuel i) s
  | 0, _, _, _, hs => hs
  | fuel + 1, i, s, hle, hs => by
    refine (h.copyByte (by omega) hs).bind (fun _ _ hs' => hs') fun c s' hs' => ?_
    split_ifs
    · exact hs'
    · exact copystrLoop h maxlen stoplen fuel (i + 1) s' (by omega) hs'

end ConfinedAccess

theorem protect_confined {m : Copy σ (Except Errno α)}
    (h : ∀ s, Confined n s → StaysConfined n m s) (hs : Confined n s) :
    StaysConfined n (protect m) s := by
  refine Call.does_modify_bind.mpr ?_
  refine Call.Does.attempt_bind (h _ ⟨hs.user, hs.buf⟩) fun r s' hs' => ?_
  match r with
  | .ok _ => exact ⟨hs'.user, hs'.buf⟩
  | .error .fatal => exact ⟨hs'.user, hs'.buf⟩
  | .error (.exited _) => exact hs'
  | .error (.halted _) => exact hs'

/-- The accesses of a copy between user memory at `p` and the buffer, as far as they are in
both. -/
def Reaches (n p : ℕ) (load : ℕ → Copy σ UInt8) (store : ℕ → UInt8 → Copy σ Unit) : Prop :=
  ∀ lim, p + lim ≤ userspacetop → lim ≤ n → ConfinedAccess n lim load store

theorem copyBlock_confined {p n : BitVec 32} (h : Reaches n.toNat p.toNat load store)
    (hs : Confined n.toNat s) : StaysConfined n.toNat (copyBlock load store p n) s := by
  unfold copyBlock
  cases hc : blockCheck p n with
  | error e => exact hs
  | ok u =>
    obtain ⟨hzero, hin⟩ := (blockCheck_ok_iff p n).mp hc
    have hn : n.toNat ≠ 0 := fun h0 => hzero (BitVec.eq_of_toNat_eq h0)
    have hacc := h n.toNat ((inUserSpace_iff.mp hin).resolve_left hn) le_rfl
    refine protect_confined (fun s hs => ?_) hs
    exact (hacc.memcpy hs).bind (fun _ _ hs' => hs') fun _ _ hs' => hs'

theorem copyString_confined {p n : BitVec 32} (h : Reaches n.toNat p.toNat load store)
    (hs : Confined n.toNat s) : StaysConfined n.toNat (copyString load store p n) s := by
  unfold copyString
  cases hc : copycheck p n with
  | error e => exact hs
  | ok stoplen =>
    have hacc := h _ (copycheck_ok hc) (Nat.min_le_left _ _)
    exact protect_confined (fun s hs => hacc.copystrLoop _ _ _ 0 s le_rfl hs) hs

end Confined

/-! ## Copies of a memory without faults -/

/-- User memory in which every access succeeds. -/
def flatPort : UserPort (ℕ → UInt8) where
  load a := fun mem => .ok (.ok (mem a), mem)
  store a b := fun mem => .ok (.ok (), update mem a b)

/-- The result of a string copy : the length with the terminator if there is one among the bytes
that both limits allow, and otherwise the error that tells which limit it was. -/
def StringEnd (src : ℕ → UInt8) (maxlen stoplen : ℕ) : Except Errno ℕ → Prop
  | .ok got => ∃ len, got = len + 1 ∧ len < min maxlen stoplen ∧ src len = 0 ∧
      ∀ j < len, src j ≠ 0
  | .error e => (∀ j < min maxlen stoplen, src j ≠ 0) ∧
      e = if maxlen ≤ stoplen then Errno.ENAMETOOLONG else Errno.EFAULT

theorem stringEnd_min {src : ℕ → UInt8} {maxlen stoplen : ℕ} {r : Except Errno ℕ} :
    StringEnd src maxlen (min maxlen stoplen) r ↔ StringEnd src maxlen stoplen r := by
  have hmin : min maxlen (min maxlen stoplen) = min maxlen stoplen := by omega
  have hle : maxlen ≤ min maxlen stoplen ↔ maxlen ≤ stoplen := by omega
  cases r with
  | ok got => simp only [StringEnd, hmin]
  | error e => simp only [StringEnd, hmin, hle]

section Flat

variable {α : Type} {load : ℕ → Copy σ UInt8} {store : ℕ → UInt8 → Copy σ Unit}
  {s : CopyState σ} {src : ℕ → UInt8}

/-- A protected copy that does not fault. -/
theorem protect_does {m : Copy σ (Except Errno α)} {Q : Except Errno α → CopyState σ → Prop}
    (h : m.Does (fun _ => False) { s with badfaultfunc := true } fun r s' =>
      ∃ r', r = .ok r' ∧ Q r' { s' with badfaultfunc := false }) :
    ∃ r' s', protect m s = .ok (.ok r', s') ∧ Q r' s' := by
  have hdoes : (protect m).Does (fun _ => False) s fun r s' => ∃ r', r = .ok r' ∧ Q r' s' := by
    refine Call.does_modify_bind.mpr (Call.Does.attempt_bind h fun r s' hr => ?_)
    obtain ⟨r', rfl, hQ⟩ := hr
    exact ⟨r', rfl, hQ⟩
  obtain ⟨r, s', heq, r', rfl, hQ⟩ := hdoes.exists_ok
  exact ⟨r', s', heq, hQ⟩

/-- The loop of `copystr` over bytes that are read without a fault. `J` is what keeps the source
readable. -/
theorem copystrLoop_does {J : CopyState σ → Prop} (maxlen stoplen : ℕ)
    (hbyte : ∀ i s, J s → (copyByte load store i).Does (fun _ => False) s fun r s' =>
      r = .ok (src i) ∧ J s') :
    ∀ (fuel i : ℕ) (s : CopyState σ), fuel + i = min maxlen stoplen → (∀ j < i, src j ≠ 0) →
      J s → (copystrLoop load store maxlen stoplen fuel i).Does (fun _ => False) s fun r _ =>
        ∃ r', r = .ok r' ∧ StringEnd src maxlen stoplen r'
  | 0, i, s, hle, hsrc, hJ => by
    refine ⟨_, rfl, fun j hj => hsrc j (by omega), ?_⟩
    by_cases h : stoplen < maxlen
    · rw [if_pos h, if_neg (not_le.mpr h)]
    · rw [if_neg h, if_pos (not_lt.mp h)]
  | fuel + 1, i, s, hle, hsrc, hJ => by
    refine (hbyte i s hJ).bind (fun e s' h => absurd h.1 (by simp)) fun c s' h => ?_
    obtain ⟨hc, hJ'⟩ := h
    obtain rfl := Except.ok.inj hc
    split_ifs with h0
    · exact ⟨_, rfl, i, rfl, by omega, h0, hsrc⟩
    · refine copystrLoop_does maxlen stoplen hbyte fuel (i + 1) s' (by omega) ?_ hJ'
      intro j hj
      rcases Nat.lt_succ_iff_lt_or_eq.mp hj with hlt | rfl
      · exact hsrc j hlt
      · exact h0

/-- `memcpy` over bytes that are read without a fault. `J i` is what holds after `i` bytes. -/
theorem memcpy_does {J : ℕ → CopyState σ → Prop} {len : ℕ}
    (hbyte : ∀ i s, J i s → (copyByte load store i).Does (fun _ => False) s fun r s' =>
      r = .ok (src i) ∧ J (i + 1) s') (hJ : J 0 s) :
    (memcpy load store len).Does (fun _ => False) s fun r s' => r = .ok () ∧ J len s' := by
  refine Call.Does.forRange (I := J) (fun i _ s hs => ?_) (fun s hs => ⟨rfl, hs⟩) hJ
  refine (hbyte i s hs).bind (fun e s' h => absurd h.1 (by simp)) fun c s' h => h.2

/-- A block that passes the check, over bytes that are read without a fault. -/
theorem copyBlock_does (src : ℕ → UInt8) {J : ℕ → CopyState σ → Prop} {p n : BitVec 32}
    (hn : n.toNat ≠ 0)
    (h : p.toNat + n.toNat ≤ userspacetop)
    (hbyte : ∀ i s, J i s → (copyByte load store i).Does (fun _ => False) s fun r s' =>
      r = .ok (src i) ∧ J (i + 1) s')
    (hfree : ∀ i s b, J i s → J i { s with badfaultfunc := b }) (hJ : J 0 s) :
    ∃ s', copyBlock load store p n s = .ok (.ok (.ok ()), s') ∧ J n.toNat s' := by
  unfold copyBlock
  rw [(blockCheck_iff hn).mpr h]
  have hcopy : Call.Does (fun _ => False)
      (memcpy load store n.toNat >>= fun _ => pure (.ok ()) : Copy σ (Except Errno Unit))
      { s with badfaultfunc := true } fun r s' => ∃ r', r = .ok r' ∧ r' = .ok () ∧
        J n.toNat { s' with badfaultfunc := false } := by
    refine (memcpy_does hbyte (hfree 0 s true hJ)).bind (fun e s' h => absurd h.1 (by simp)) ?_
    intro u s' h'
    exact ⟨.ok (), rfl, rfl, hfree _ _ false h'.2⟩
  obtain ⟨r, s', heq, rfl, hJ'⟩ :=
    protect_does (s := s) (Q := fun r s' => r = .ok () ∧ J n.toNat s') hcopy
  exact ⟨s', heq, hJ'⟩

/-- A string whose range is not refused, over bytes that are read without a fault. -/
theorem copyString_does {J : CopyState σ → Prop} {p n : BitVec 32} (hn : n.toNat ≠ 0)
    (h : ¬(userspacetop ≤ p.toNat ∨ 2 ^ 32 < p.toNat + n.toNat))
    (hbyte : ∀ i s, J s → (copyByte load store i).Does (fun _ => False) s fun r s' =>
      r = .ok (src i) ∧ J s')
    (hfree : ∀ s b, J s → J { s with badfaultfunc := b }) (hJ : J s) :
    ∃ r s', copyString load store p n s = .ok (.ok r, s') ∧
      StringEnd src n.toNat (userspacetop - p.toNat) r := by
  have hstop : (BitVec.ofNat 32 (min n.toNat (userspacetop - p.toNat))).toNat =
      min n.toNat (userspacetop - p.toNat) := by
    rw [BitVec.toNat_ofNat, Nat.mod_eq_of_lt (by omega)]
  unfold copyString
  rw [copycheck_eq p n hn, if_neg h]
  dsimp only
  rw [hstop]
  have hcopy := copystrLoop_does n.toNat (min n.toNat (userspacetop - p.toNat)) hbyte
    (min n.toNat (min n.toNat (userspacetop - p.toNat))) 0 { s with badfaultfunc := true } rfl
    (fun j hj => absurd hj (Nat.not_lt_zero j)) (hfree s true hJ)
  obtain ⟨r, s', heq, hend⟩ := protect_does (s := s) (Q := fun r _ => StringEnd src _ _ r) hcopy
  exact ⟨r, s', heq, stringEnd_min.mp hend⟩

end Flat

/-! ## The four functions -/

/-- A byte from user memory. -/
theorem copyByte_in (p i : ℕ) (s : CopyState (ℕ → UInt8)) :
    (copyByte (fun i => userLoad flatPort (p + i)) bufStore i).Does (fun _ => False) s fun r s' =>
      r = .ok (s.user (p + i)) ∧ s'.user = s.user ∧
        s'.buf = update s.buf i (s.user (p + i)) :=
  ⟨rfl, rfl, rfl⟩

/-- A byte to user memory. -/
theorem copyByte_out (p i : ℕ) (s : CopyState (ℕ → UInt8)) :
    (copyByte bufLoad (fun i => userStore flatPort (p + i)) i).Does (fun _ => False) s fun r s' =>
      r = .ok (s.buf i) ∧ s'.buf = s.buf ∧
        s'.user = update s.user (p + i) (s.buf i) :=
  ⟨rfl, rfl, rfl⟩

/-- `copyin` of a range in user space. -/
theorem copyin_flat {p n : BitVec 32} (hn : n.toNat ≠ 0)
    (h : p.toNat + n.toNat ≤ userspacetop) (s : CopyState (ℕ → UInt8)) :
    ∃ s', copyin flatPort p n s = .ok (.ok (.ok ()), s') ∧ s'.user = s.user ∧
      s'.buf = moveBytes s.user p.toNat s.buf 0 n.toNat := by
  refine copyBlock_does (fun i => s.user (p.toNat + i)) hn h
    (J := fun i s' => s'.user = s.user ∧ s'.buf = moveBytes s.user p.toNat s.buf 0 i)
    (fun i s' hs' => ?_) (fun _ _ _ hJ => hJ) ⟨rfl, ?_⟩
  · refine (copyByte_in p.toNat i s').mono fun r s₁ hr => ?_
    rw [hs'.1, hs'.2] at hr
    refine ⟨hr.1, hr.2.1, ?_⟩
    rw [hr.2.2, moveBytes_succ, Nat.zero_add]
  · funext x
    exact (if_neg (by omega)).symm

/-- `copyout` to a range in user space. -/
theorem copyout_flat {p n : BitVec 32} (hn : n.toNat ≠ 0)
    (h : p.toNat + n.toNat ≤ userspacetop) (s : CopyState (ℕ → UInt8)) :
    ∃ s', copyout flatPort p n s = .ok (.ok (.ok ()), s') ∧ s'.buf = s.buf ∧
      s'.user = moveBytes s.buf 0 s.user p.toNat n.toNat := by
  refine copyBlock_does s.buf hn h
    (J := fun i s' => s'.buf = s.buf ∧ s'.user = moveBytes s.buf 0 s.user p.toNat i)
    (fun i s' hs' => ?_) (fun _ _ _ hJ => hJ) ⟨rfl, ?_⟩
  · refine (copyByte_out p.toNat i s').mono fun r s₁ hr => ?_
    rw [hs'.1, hs'.2] at hr
    refine ⟨hr.1, hr.2.1, ?_⟩
    rw [hr.2.2, moveBytes_succ, Nat.zero_add]
  · funext x
    exact (if_neg (by omega)).symm

/-- Pointers are checked so that kernel copies stay in user space. For a length of at least one :
`copyin` and `copyout` let a block through exactly if it ends at `USERSPACETOP` at the latest, and
refuse the others untouched; `copyinstr` and `copyoutstr` refuse what starts above user space or
wraps around, and otherwise find the end of the string, or tell which limit it ran into. No copy, of
whatever length and through whatever port, leaves user space or its buffer. -/
theorem copies_confined (p n : BitVec 32) :
    (n.toNat ≠ 0 →
      (blockCheck p n = .ok () ↔ p.toNat + n.toNat ≤ userspacetop) ∧
      (userspacetop < p.toNat + n.toNat → ∀ (σ : Type) (port : UserPort σ) (s : CopyState σ),
        copyin port p n s = .ok (.ok (.error Errno.EFAULT), s) ∧
        copyout port p n s = .ok (.ok (.error Errno.EFAULT), s)) ∧
      (p.toNat + n.toNat ≤ userspacetop → ∀ s : CopyState (ℕ → UInt8),
        (∃ s', copyin flatPort p n s = .ok (.ok (.ok ()), s') ∧ s'.user = s.user ∧
          s'.buf = moveBytes s.user p.toNat s.buf 0 n.toNat) ∧
        ∃ s', copyout flatPort p n s = .ok (.ok (.ok ()), s') ∧ s'.buf = s.buf ∧
          s'.user = moveBytes s.buf 0 s.user p.toNat n.toNat) ∧
      (userspacetop ≤ p.toNat ∨ 2 ^ 32 < p.toNat + n.toNat →
        ∀ (σ : Type) (port : UserPort σ) (s : CopyState σ),
        copyinstr port p n s = .ok (.ok (.error Errno.EFAULT), s) ∧
        copyoutstr port p n s = .ok (.ok (.error Errno.EFAULT), s)) ∧
      (¬(userspacetop ≤ p.toNat ∨ 2 ^ 32 < p.toNat + n.toNat) → ∀ s : CopyState (ℕ → UInt8),
        (∃ r s', copyinstr flatPort p n s = .ok (.ok r, s') ∧
          StringEnd (fun i => s.user (p.toNat + i)) n.toNat (userspacetop - p.toNat) r) ∧
        ∃ r s', copyoutstr flatPort p n s = .ok (.ok r, s') ∧
          StringEnd s.buf n.toNat (userspacetop - p.toNat) r)) ∧
    ∀ (σ : Type) (port : UserPort σ) (s : CopyState σ), Confined n.toNat s →
      (∃ r s', copyin port p n s = .ok (r, s') ∧ Confined n.toNat s') ∧
      (∃ r s', copyout port p n s = .ok (r, s') ∧ Confined n.toNat s') ∧
      (∃ r s', copyinstr port p n s = .ok (r, s') ∧ Confined n.toNat s') ∧
      ∃ r s', copyoutstr port p n s = .ok (r, s') ∧ Confined n.toNat s' := by
  refine ⟨fun hn => ⟨blockCheck_iff hn, fun h σ port s => ?_, fun h s => ?_, fun h σ port s => ?_,
    fun h s => ?_⟩, fun σ port s hs => ?_⟩
  · have hcheck : blockCheck p n = .error Errno.EFAULT := by
      cases hc : blockCheck p n with
      | error e => rw [blockCheck_error hc]
      | ok u => exact absurd ((blockCheck_iff hn).mp hc) (not_le.mpr h)
    unfold copyin copyout copyBlock
    rw [hcheck]
    exact ⟨rfl, rfl⟩
  · exact ⟨copyin_flat hn h s, copyout_flat hn h s⟩
  · unfold copyinstr copyoutstr copyString
    rw [copycheck_eq p n hn, if_pos h]
    exact ⟨rfl, rfl⟩
  · constructor
    · refine copyString_does hn h (J := fun s' => s'.user = s.user) (fun i s' hs' => ?_)
        (fun _ _ hJ => hJ) rfl
      rw [← hs']
      exact (copyByte_in p.toNat i s').mono fun r s₁ hr => ⟨hr.1, hr.2.1⟩
    · refine copyString_does hn h (J := fun s' => s'.buf = s.buf) (fun i s' hs' => ?_)
        (fun _ _ hJ => hJ) rfl
      rw [← hs']
      exact (copyByte_out p.toNat i s').mono fun r s₁ hr => ⟨hr.1, hr.2.1⟩
  · have hin : Reaches n.toNat p.toNat (fun i => userLoad port (p.toNat + i)) bufStore :=
      fun lim => confinedAccess_in
    have hout : Reaches n.toNat p.toNat bufLoad fun i => userStore port (p.toNat + i) :=
      fun lim => confinedAccess_out
    exact ⟨(copyBlock_confined hin hs).exists_ok, (copyBlock_confined hout hs).exists_ok,
      (copyString_confined hin hs).exists_ok, (copyString_confined hout hs).exists_ok⟩

end Accesses

end OS161
