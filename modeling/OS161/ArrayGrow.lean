import OS161.KmallocKernel
import OS161.Memmove

/-!
# Resizeable arrays

The arrays of pointers of `kern/lib/array.c`. An array that is full gets a new block : the capacity
is doubled until it is large enough, `kmalloc` is asked for that many pointers, and the old
elements are copied. Capacities are of type `unsigned`, and so is the number of bytes.

`growLoop_eq_some` and `exists_growLoop` : the loop ends with the least power of two that is large
enough, and it does not end if there is none below `2 ^ 32`. From `2 ^ 30` pointers on, the number
of bytes is `0` for `kmalloc`. `array_growth_iff` says when growth works or fails cleanly, and
`wf_of_run` that arrays that only grow so are as it supposes. Of `kmalloc` it supposes `Grants`,
which the kernel's own keeps (`grants_answer`, `arraySetsize_answer`).
-/

namespace OS161

/-- `sizeof(void *)`. -/
def sizeofPtr : ℕ :=
  4

/-- `struct array` and the memory. `bytes` is the size of the block at `v`. -/
structure PtrArray where
  v : ℕ
  num : ℕ
  max : ℕ
  bytes : ℕ
  mem : ℕ → UInt8

namespace PtrArray

/-- `array_init`. -/
def arrayInit (mem : ℕ → UInt8) : PtrArray :=
  ⟨0, 0, 0, 0, mem⟩

/-- The address of `a->v[index]`. -/
def addr (a : PtrArray) (index : ℕ) : ℕ :=
  word32 (a.v + sizeofPtr * index)

/-- What is found at `a->v[index]`. -/
def elem (a : PtrArray) (index : ℕ) : ℕ :=
  getWord a.mem (a.addr index / sizeofPtr)

/-- `a->v[index] = val`. -/
def store (a : PtrArray) (index val : ℕ) : PtrArray :=
  { a with mem := setWord a.mem (a.addr index / sizeofPtr) val }

/-- `array_get`. -/
def arrayGet (a : PtrArray) (index : ℕ) : Except Halt ℕ := do
  kassert (index < a.num) "index < a->num"
  pure (a.elem index)

/-- `array_set`. -/
def arraySet (a : PtrArray) (index val : ℕ) : Except Halt PtrArray := do
  kassert (index < a.num) "index < a->num"
  pure (a.store index val)

/-- The loop that finds the new capacity, for at most `fuel` rounds. -/
def growLoop (num : ℕ) : ℕ → ℕ → Option ℕ
  | 0, _ => none
  | fuel + 1, newmax =>
    if newmax < num then growLoop num fuel (if newmax ≠ 0 then word32 (newmax * 2) else 4)
    else some newmax

/-- The new block, with the old elements, in the place of the old one. -/
def replace (a : PtrArray) (newmax newptr bytes : ℕ) : PtrArray :=
  { a with
    v := newptr
    max := newmax
    bytes := bytes
    mem := (Libc.memcpy a.mem newptr a.v (word32 (a.num * sizeofPtr))).2 }

/-- `array_preallocate`, where `kmalloc` answers a size with a block and its size. -/
def arrayPreallocate (kmalloc : ℕ → Option (ℕ × ℕ)) (fuel : ℕ) (a : PtrArray) (num : ℕ) :
    Option (Except Errno Unit × PtrArray) :=
  if a.max < num then do
    let newmax ← growLoop num fuel a.max
    match kmalloc (word32 (newmax * sizeofPtr)) with
    | none => some (.error .ENOMEM, a)
    | some (newptr, bytes) => some (.ok (), a.replace newmax newptr bytes)
  else some (.ok (), a)

/-- `array_setsize`. -/
def arraySetsize (kmalloc : ℕ → Option (ℕ × ℕ)) (fuel : ℕ) (a : PtrArray) (num : ℕ) :
    Option (Except Errno Unit × PtrArray) := do
  match ← arrayPreallocate kmalloc fuel a num with
  | (.error e, a) => some (.error e, a)
  | (.ok (), a) => some (.ok (), { a with num := num })

/-- `array_add`, with the index it gives back. -/
def arrayAdd (kmalloc : ℕ → Option (ℕ × ℕ)) (fuel : ℕ) (a : PtrArray) (val : ℕ) :
    Option (Except Errno ℕ × PtrArray) := do
  let index := a.num
  match ← arraySetsize kmalloc fuel a (word32 (index + 1)) with
  | (.error e, a) => some (.error e, a)
  | (.ok (), a) => some (.ok index, a.store index val)

/-- `array_remove`. -/
def arrayRemove (a : PtrArray) (index : ℕ) : Except Halt PtrArray := do
  kassert (a.num ≤ a.max) "a->num <= a->max"
  kassert (index < a.num) "index < a->num"
  let numToMove := word32 (a.num + 2 ^ 32 - (index + 1))
  pure { a with
    mem := (Libc.memmove a.mem (a.addr index) (a.addr (index + 1))
      (word32 (numToMove * sizeofPtr))).2
    num := a.num - 1 }

/-! ## What is expected -/

/-- The block at `v` holds the capacity, and the capacity was found by doubling. -/
structure WF (a : PtrArray) : Prop where
  num_le : a.num ≤ a.max
  backed : a.max * sizeofPtr ≤ a.bytes
  bound : a.v + a.bytes ≤ 2 ^ 32
  aligned : a.v % sizeofPtr = 0
  capacity : a.max = 0 ∨ ∃ t, 2 ≤ t ∧ t ≤ 29 ∧ a.max = 2 ^ t

/-- What `kmalloc` promises : a block of the size asked for, at least, apart from that of the
array. -/
def Grants (kmalloc : ℕ → Option (ℕ × ℕ)) (a : PtrArray) : Prop :=
  ∀ size p bytes, kmalloc size = some (p, bytes) → size ≤ bytes ∧ 0 < p ∧ p % sizeofPtr = 0 ∧
    p + bytes ≤ 2 ^ 32 ∧ (p + bytes ≤ a.v ∨ a.v + a.bytes ≤ p)

/-- The array `a` with `num` elements. -/
structure Grown (a : PtrArray) (num : ℕ) (a' : PtrArray) : Prop where
  num_eq : a'.num = num
  capacity : num ≤ a'.max
  backed : a'.max * sizeofPtr ≤ a'.bytes
  old : ∀ i < a.num, a'.elem i = a.elem i
  inside : ∀ i < num, a'.v ≤ a'.addr i ∧ a'.addr i + sizeofPtr ≤ a'.v + a'.bytes

/-- Growth worked, or failed and changed nothing. -/
def Clean {α : Type} (a : PtrArray) (num : ℕ) : Except Errno α × PtrArray → Prop
  | (.ok _, a') => Grown a num a'
  | (.error e, a') => e = .ENOMEM ∧ a' = a

/-- There is room already, or the new block has fewer than `2 ^ 32` bytes, or the loop ends and
`kmalloc(0)` fails. -/
def Fits (kmalloc : ℕ → Option (ℕ × ℕ)) (a : PtrArray) (num : ℕ) : Prop :=
  num ≤ a.max ∨ num ≤ 2 ^ 29 ∨ num ≤ 2 ^ 31 ∧ kmalloc 0 = none

/-! ## The doubling -/

section Doubling

variable {num fuel newmax m t : ℕ}

/-- The capacities that the loop tries. -/
def Capacity (newmax : ℕ) : Prop :=
  newmax = 0 ∨ ∃ t, 2 ≤ t ∧ t ≤ 31 ∧ newmax = 2 ^ t

/-- A capacity is doubled, from `2 ^ 31` to `0`. -/
theorem Capacity.next (h : Capacity newmax) :
    Capacity (if newmax ≠ 0 then word32 (newmax * 2) else 4) := by
  obtain rfl | ⟨t, h2, h31, rfl⟩ := h
  · exact Or.inr ⟨2, le_rfl, by decide, rfl⟩
  · rw [if_pos (Nat.two_pow_pos t).ne', ← Nat.pow_succ]
    rcases Nat.lt_or_eq_of_le h31 with hlt | rfl
    · exact Or.inr ⟨t + 1, by omega, hlt,
        Nat.mod_eq_of_lt (Nat.pow_lt_pow_right (by decide) (by omega))⟩
    · exact Or.inl rfl

/-- The loop ends with the first power of two that is large enough. -/
theorem growLoop_eq_some (hc : Capacity newmax) (hlt : newmax < num)
    (h : growLoop num fuel newmax = some m) :
    num ≤ m ∧ (m = 4 ∨ m < 2 * num) ∧ ∃ t, 2 ≤ t ∧ t ≤ 31 ∧ m = 2 ^ t := by
  induction fuel generalizing newmax with
  | zero => cases h
  | succ fuel ih =>
    rw [growLoop, if_pos hlt] at h
    have hnext := hc.next
    have hle : (if newmax ≠ 0 then word32 (newmax * 2) else 4) = 4 ∨
        (if newmax ≠ 0 then word32 (newmax * 2) else 4) < 2 * num := by
      split_ifs
      · have := Nat.mod_le (newmax * 2) (2 ^ 32)
        exact Or.inr (by unfold word32; omega)
      · exact Or.inl rfl
    generalize (if newmax ≠ 0 then word32 (newmax * 2) else 4) = next at h hnext hle
    by_cases hlt' : next < num
    · exact ih hnext hlt' h
    · cases fuel with
      | zero => cases h
      | succ fuel =>
        rw [growLoop, if_neg hlt'] at h
        cases h
        refine ⟨not_lt.mp hlt', hle, ?_⟩
        rcases hnext with rfl | hpow
        · omega
        · exact hpow

theorem exists_growLoop_pow (j : ℕ) (h : num ≤ 2 ^ (t + j)) (hj : t + j ≤ 31) :
    ∃ m, growLoop num (j + 1) (2 ^ t) = some m := by
  induction j generalizing t with
  | zero => exact ⟨2 ^ t, if_neg (by simpa using h)⟩
  | succ j ih =>
    rw [growLoop]
    split_ifs with hlt h0
    · rw [← Nat.pow_succ, word32, Nat.mod_eq_of_lt (Nat.pow_lt_pow_right (by decide) (by omega))]
      exact ih (by rwa [Nat.succ_add_eq_add_succ]) (by omega)
    · exact absurd (Nat.two_pow_pos t).ne' h0
    · exact ⟨_, rfl⟩

/-- The loop ends if a power of two below `2 ^ 32` is large enough. -/
theorem exists_growLoop (hc : Capacity newmax) (h : num ≤ 2 ^ 31) :
    ∃ fuel m, growLoop num fuel newmax = some m := by
  obtain rfl | ⟨t, h2, h31, rfl⟩ := hc
  · obtain ⟨m, hm⟩ := exists_growLoop_pow (t := 2) 29 h (by decide)
    rcases num.eq_zero_or_pos with rfl | hpos
    · exact ⟨1, 0, rfl⟩
    · exact ⟨31, m, (if_pos hpos).trans hm⟩
  · rw [← Nat.add_sub_cancel' h31] at h
    obtain ⟨m, hm⟩ := exists_growLoop_pow (31 - t) h (by omega)
    exact ⟨_, m, hm⟩

end Doubling

/-! ## Growth -/

section Growth

variable {kmalloc : ℕ → Option (ℕ × ℕ)} {a a' : PtrArray} {fuel num val i m p bytes : ℕ}
  {r : Except Errno Unit}

theorem WF.tried (ha : a.WF) : Capacity a.max :=
  ha.capacity.imp_right fun ⟨t, h2, h29, h⟩ => ⟨t, h2, by omega, h⟩

theorem WF.word32_succ (ha : a.WF) : word32 (a.num + 1) = a.num + 1 := by
  have hnum := ha.num_le
  have hmax : a.max ≤ 2 ^ 29 := by
    obtain h | ⟨t, -, h29, h⟩ := ha.capacity
    · omega
    · rw [h]
      exact Nat.pow_le_pow_right (by decide) h29
  exact Nat.mod_eq_of_lt (by omega)

/-- The elements below the capacity lie in the block, one after the other. -/
theorem WF.addr_eq (ha : a.WF) (hi : i < a.max) : a.addr i = sizeofPtr * (a.v / sizeofPtr + i) := by
  have hb := ha.backed
  have hv := ha.bound
  have hal := ha.aligned
  unfold sizeofPtr at hb hal
  unfold addr word32 sizeofPtr
  rw [Nat.mod_eq_of_lt (by omega)]
  omega

theorem WF.inside (ha : a.WF) (hi : i < a.max) :
    a.v ≤ a.addr i ∧ a.addr i + sizeofPtr ≤ a.v + a.bytes := by
  have hb := ha.backed
  have hal := ha.aligned
  rw [ha.addr_eq hi]
  unfold sizeofPtr at hb hal ⊢
  omega

theorem WF.elem_eq (ha : a.WF) (hi : i < a.max) :
    a.elem i = getWord a.mem (a.v / sizeofPtr + i) := by
  rw [elem, ha.addr_eq hi, Nat.mul_div_cancel_left _ (by decide)]

theorem WF.setNum (ha : a.WF) (h : num ≤ a.max) : WF { a with num := num } :=
  ⟨h, ha.backed, ha.bound, ha.aligned, ha.capacity⟩

/-- A block that is large enough keeps the elements. -/
theorem WF.replace (ha : a.WF) (hk : Grants kmalloc a) {t : ℕ} (h2 : 2 ≤ t) (h29 : t ≤ 29)
    (hle : a.num ≤ 2 ^ t) (hp : kmalloc (word32 (2 ^ t * sizeofPtr)) = some (p, bytes)) :
    (a.replace (2 ^ t) p bytes).WF ∧
      ∀ i < a.num, (a.replace (2 ^ t) p bytes).elem i = a.elem i := by
  obtain ⟨hsize, -, hal, hbound, hapart⟩ := hk _ _ _ hp
  have hpow : 2 ^ t ≤ 2 ^ 29 := Nat.pow_le_pow_right (by decide) h29
  have hw : word32 (2 ^ t * sizeofPtr) = 2 ^ t * sizeofPtr :=
    Nat.mod_eq_of_lt (by unfold sizeofPtr; omega)
  rw [hw] at hsize
  have hwf : (a.replace (2 ^ t) p bytes).WF :=
    ⟨hle, hsize, hbound, hal, Or.inr ⟨t, h2, h29, rfl⟩⟩
  refine ⟨hwf, fun i hi => ?_⟩
  have hnum := ha.num_le
  have hb := ha.backed
  have hv := ha.bound
  have hal' := ha.aligned
  rw [hwf.elem_eq (hi.trans_le hle), ha.elem_eq (hi.trans_le hnum)]
  have hlen : word32 (a.num * sizeofPtr) = sizeofPtr * a.num := by
    unfold sizeofPtr at *
    rw [word32, Nat.mod_eq_of_lt (by omega), Nat.mul_comm]
  have hmem : (a.replace (2 ^ t) p bytes).mem =
      moveBytes a.mem (4 * (a.v / 4)) a.mem (4 * (p / 4)) (4 * a.num) := by
    unfold PtrArray.replace
    unfold sizeofPtr at *
    rw [hlen, Libc.memcpy_eq (by omega) (by omega) (by omega)]
    dsimp only
    rw [Nat.mul_div_cancel' (by omega), Nat.mul_div_cancel' (by omega)]
  rw [hmem]
  exact getWord_moveBytes hi

/-- What a call of `array_setsize` that returns has done. -/
theorem arraySetsize_cases (h : arraySetsize kmalloc fuel a num = some (r, a')) :
    num ≤ a.max ∧ r = .ok () ∧ a' = { a with num := num } ∨
      a.max < num ∧ ∃ m, growLoop num fuel a.max = some m ∧
        (kmalloc (word32 (m * sizeofPtr)) = none ∧ r = .error .ENOMEM ∧ a' = a ∨
          ∃ p bytes, kmalloc (word32 (m * sizeofPtr)) = some (p, bytes) ∧ r = .ok () ∧
            a' = { a.replace m p bytes with num := num }) := by
  obtain ⟨⟨r₁, a₁⟩, hpre, h⟩ := Option.bind_eq_some_iff.mp h
  unfold arrayPreallocate at hpre
  split_ifs at hpre with hlt
  · obtain ⟨m, hm, hpre⟩ := Option.bind_eq_some_iff.mp hpre
    refine Or.inr ⟨hlt, m, hm, ?_⟩
    cases hk : kmalloc (word32 (m * sizeofPtr)) with
    | none =>
      rw [hk] at hpre
      cases hpre
      cases h
      exact Or.inl ⟨rfl, rfl, rfl⟩
    | some b =>
      rw [hk] at hpre
      cases hpre
      cases h
      exact Or.inr ⟨b.1, b.2, rfl, rfl, rfl⟩
  · cases hpre
    cases h
    exact Or.inl ⟨not_lt.mp hlt, rfl, rfl⟩

/-- The number of bytes wraps from `2 ^ 30` pointers on. -/
theorem word32_two_pow_mul {t : ℕ} (h : 30 ≤ t) : word32 (2 ^ t * sizeofPtr) = 0 := by
  obtain ⟨j, rfl⟩ := Nat.exists_eq_add_of_le h
  refine Nat.mod_eq_zero_of_dvd ⟨2 ^ j, ?_⟩
  rw [Nat.pow_add, Nat.mul_right_comm]
  rfl

/-- A call that has to grow the array and fits. -/
theorem Fits.pow (h : Fits kmalloc a num) (ha : a.WF) (hlt : a.max < num)
    (hm : growLoop num fuel a.max = some m) :
    ∃ t, 2 ≤ t ∧ m = 2 ^ t ∧ num ≤ 2 ^ t ∧ (t ≤ 29 ∨ kmalloc (word32 (m * sizeofPtr)) = none) := by
  obtain ⟨hle, hsmall, t, h2, -, rfl⟩ := growLoop_eq_some ha.tried hlt hm
  refine ⟨t, h2, rfl, hle, ?_⟩
  by_contra hbig
  have h30 : 30 ≤ t := by omega
  have hpow : 2 ^ 30 ≤ 2 ^ t := Nat.pow_le_pow_right (by decide) h30
  rcases h with h | h | ⟨-, h⟩
  · omega
  · omega
  · exact hbig (Or.inr (by rw [word32_two_pow_mul h30, h]))

/-- A call that fits works, or fails cleanly, and the array is as it should be. -/
theorem Fits.clean (h : Fits kmalloc a num) (ha : a.WF) (hk : Grants kmalloc a)
    (hrun : arraySetsize kmalloc fuel a num = some (r, a')) : Clean a num (r, a') ∧ a'.WF := by
  obtain ⟨hle, rfl, rfl⟩ | ⟨hlt, m, hm, ⟨-, rfl, rfl⟩ | ⟨p, bytes, hp, rfl, rfl⟩⟩ :=
    arraySetsize_cases hrun
  · exact ⟨⟨rfl, hle, ha.backed, fun i _ => rfl, fun i hi => ha.inside (hi.trans_le hle)⟩,
      ha.setNum hle⟩
  · exact ⟨⟨rfl, rfl⟩, ha⟩
  · obtain ⟨t, h2, rfl, hle, h29 | hnone⟩ := h.pow ha hlt hm
    · obtain ⟨hwf, hold⟩ := ha.replace hk h2 h29 (ha.num_le.trans (hlt.le.trans hle)) hp
      exact ⟨⟨rfl, hle, hwf.backed, hold, fun i hi => hwf.inside (hi.trans_le hle)⟩,
        hwf.setNum hle⟩
    · rw [hnone] at hp
      cases hp

/-- A call that fits returns. -/
theorem Fits.returns (h : Fits kmalloc a num) (ha : a.WF) :
    ∃ fuel r a', arraySetsize kmalloc fuel a num = some (r, a') := by
  have hle : num ≤ a.max ∨ num ≤ 2 ^ 31 := by
    rcases h with h | h | h
    · exact Or.inl h
    · exact Or.inr (h.trans (by decide))
    · exact Or.inr h.1
  unfold arraySetsize arrayPreallocate
  rcases Nat.lt_or_ge a.max num with hlt | hge
  · obtain ⟨fuel, m, hm⟩ := exists_growLoop ha.tried (hle.resolve_left (by omega))
    refine ⟨fuel, ?_⟩
    rw [if_pos hlt, hm]
    dsimp only [Option.bind_eq_bind, Option.bind_some]
    cases kmalloc (word32 (m * sizeofPtr)) with
    | none => exact ⟨_, _, rfl⟩
    | some b => exact ⟨_, _, rfl⟩
  · exact ⟨0, _, _, by rw [if_neg (by omega)]; rfl⟩

/-- A call that returns and does not lie about the capacity fits. -/
theorem fits_of_backed (ha : a.WF) (hk : Grants kmalloc a)
    (hrun : arraySetsize kmalloc fuel a num = some (r, a'))
    (hb : r = .ok () → a'.max * sizeofPtr ≤ a'.bytes) : Fits kmalloc a num := by
  obtain ⟨hle, -, -⟩ | ⟨hlt, m, hm, hans⟩ := arraySetsize_cases hrun
  · exact Or.inl hle
  · obtain ⟨hle, -, t, h2, h31, rfl⟩ := growLoop_eq_some ha.tried hlt hm
    have h31' : 2 ^ t ≤ 2 ^ 31 := Nat.pow_le_pow_right (by decide) h31
    rcases Nat.lt_or_ge t 30 with hlt30 | h30
    · exact Or.inr (Or.inl (hle.trans (Nat.pow_le_pow_right (by decide) (by omega))))
    · rw [word32_two_pow_mul h30] at hans
      refine Or.inr (Or.inr ⟨hle.trans h31', ?_⟩)
      obtain ⟨hnone, -, -⟩ | ⟨p, bytes, hp, rfl, rfl⟩ := hans
      · exact hnone
      · have hpow : 2 ^ 30 ≤ 2 ^ t := Nat.pow_le_pow_right (by decide) h30
        have hbytes : 2 ^ t * sizeofPtr ≤ bytes := hb rfl
        obtain ⟨-, hpos, -, hbound, -⟩ := hk _ _ _ hp
        unfold sizeofPtr at hbytes
        omega

/-- The new element is stored behind the others. -/
theorem Grown.store (h : Grown a num a') (ha : a'.WF) (hn : a.num < num) :
    Grown a num (a'.store a.num val) := by
  refine ⟨h.num_eq, h.capacity, h.backed, fun i hi => ?_, h.inside⟩
  have haddr := ha.addr_eq (hn.trans_le h.capacity)
  have haddr' := ha.addr_eq (hi.trans (hn.trans_le h.capacity))
  refine (getWord_setWord_ne ?_).trans (h.old i hi)
  change a'.addr i / sizeofPtr ≠ a'.addr a.num / sizeofPtr
  rw [haddr, haddr']
  unfold sizeofPtr
  omega

end Growth

/-! ## Arrays that the calls make -/

/-- The calls on an array. -/
inductive ArrayOp
  | setsize (num : ℕ)
  | add (val : ℕ)
  | set (index val : ℕ)
  | remove (index : ℕ)

/-- A call that returns. An array grows only where that fits. -/
inductive Step : PtrArray → ArrayOp → PtrArray → Prop
  | setsize {a a' kmalloc fuel num r} : Grants kmalloc a → Fits kmalloc a num →
      arraySetsize kmalloc fuel a num = some (r, a') → Step a (.setsize num) a'
  | add {a a' kmalloc fuel val r} : Grants kmalloc a → Fits kmalloc a (a.num + 1) →
      arrayAdd kmalloc fuel a val = some (r, a') → Step a (.add val) a'
  | set {a a' index val} : arraySet a index val = .ok a' → Step a (.set index val) a'
  | remove {a a' index} : arrayRemove a index = .ok a' → Step a (.remove index) a'

theorem Step.wf {a a' : PtrArray} {op : ArrayOp} (h : Step a op a') (ha : a.WF) : a'.WF := by
  cases h with
  | setsize hk hfits hrun => exact (hfits.clean ha hk hrun).2
  | add hk hfits hrun =>
    obtain ⟨⟨r', a₁⟩, hset, hrun⟩ := Option.bind_eq_some_iff.mp hrun
    rw [ha.word32_succ] at hset
    have hwf := (hfits.clean ha hk hset).2
    cases r' with
    | error e =>
      cases hrun
      exact hwf
    | ok u =>
      cases hrun
      exact ⟨hwf.num_le, hwf.backed, hwf.bound, hwf.aligned, hwf.capacity⟩
  | set hrun =>
    obtain ⟨_, -, hrun⟩ := bind_eq_ok.mp hrun
    cases hrun
    exact ⟨ha.num_le, ha.backed, ha.bound, ha.aligned, ha.capacity⟩
  | remove hrun =>
    obtain ⟨_, -, hrun⟩ := bind_eq_ok.mp hrun
    obtain ⟨_, -, hrun⟩ := bind_eq_ok.mp hrun
    cases hrun
    exact ⟨(Nat.sub_le ..).trans ha.num_le, ha.backed, ha.bound, ha.aligned, ha.capacity⟩

theorem wf_arrayInit (mem : ℕ → UInt8) : (arrayInit mem).WF :=
  ⟨le_rfl, le_rfl, Nat.zero_le (2 ^ 32), rfl, Or.inl rfl⟩

/-- Every array that the calls make, from `array_init` on. -/
theorem wf_of_run {mem : ℕ → UInt8} {l : List ArrayOp} {a : PtrArray}
    (h : Run Step (arrayInit mem) l a) : a.WF :=
  h.invariant (wf_arrayInit mem) fun _ _ _ ha hs => hs.wf ha

/-! ## On the heap of the kernel -/

section Heap

variable {w : KernelHeap} {a : PtrArray} {num : ℕ}

/-- What `kmalloc` answers where the rounding to pages does not wrap. A panic answers nothing. -/
def answer (w : KernelHeap) (size : ℕ) : Option (ℕ × ℕ) :=
  if size + pageSize - 1 < 2 ^ 32 then
    (w.kmalloc size).toOption.bind fun r => if r.1 = 0 then none else some (r.1, size)
  else none

/-- The block of the array, if it has one, is a live one of the heap. -/
def OnHeap (a : PtrArray) (w : KernelHeap) : Prop :=
  a.v = 0 ∧ a.bytes = 0 ∨ (a.v, a.bytes) ∈ w.heap.live

/-- The kernel's `kmalloc` keeps the promise. -/
theorem grants_answer (h : w.Inv) (ha : a.OnHeap w) : Grants (answer w) a := by
  intro size p bytes hans
  obtain ⟨hb, hans⟩ := Option.ite_none_right_eq_some.mp hans
  obtain ⟨⟨q, w'⟩, hr, hans⟩ := Option.bind_eq_some_iff.mp hans
  obtain ⟨h0, hans⟩ := Option.ite_none_left_eq_some.mp hans
  cases hans
  have hsafe := h.safe hb (eq_ok_of_toOption hr)
  have hlive : (q, size) ∈ (w'.entered q size).heap.live := by
    rw [KernelHeap.entered, if_neg h0]
    exact List.mem_cons_self
  obtain ⟨-, hal, hbound⟩ := hsafe.inv.heap.block_bounds hlive
  refine ⟨le_rfl, Nat.pos_of_ne_zero h0, ?_, hbound, ?_⟩
  · dsimp only at hal ⊢
    unfold sizeofPtr
    omega
  · rcases ha with ⟨hv, hbytes⟩ | hmem
    · rw [hv, hbytes]
      exact Or.inr (Nat.zero_le q)
    · exact hsafe.fresh.resolve_left h0 _ hmem

/-- An array on this heap gets up to `2 ^ 29` elements, or stays as it is. -/
theorem arraySetsize_answer (h : w.Inv) (hw : a.OnHeap w) (ha : a.WF) (hn : num ≤ 2 ^ 29) :
    ∃ fuel r a', arraySetsize (answer w) fuel a num = some (r, a') ∧ Clean a num (r, a') ∧
      a'.WF := by
  have hfits : Fits (answer w) a num := Or.inr (Or.inl hn)
  obtain ⟨fuel, r, a', hrun⟩ := hfits.returns ha
  exact ⟨fuel, r, a', hrun, hfits.clean ha (grants_answer h hw) hrun⟩

end Heap

/-! ## When growth works -/

/-- Growth of an array works or fails cleanly exactly if there is room already, or the new block
has fewer than `2 ^ 32` bytes, or the loop ends and `kmalloc(0)` fails. -/
theorem array_growth_iff {a : PtrArray} (ha : a.WF) {kmalloc : ℕ → Option (ℕ × ℕ)}
    (hk : Grants kmalloc a) :
    (∀ num < 2 ^ 32, (∃ fuel r, arraySetsize kmalloc fuel a num = some r ∧ Clean a num r) ↔
      Fits kmalloc a num) ∧
    ∀ val, (∃ fuel r, arrayAdd kmalloc fuel a val = some r ∧ Clean a (a.num + 1) r) ↔
      Fits kmalloc a (a.num + 1) := by
  constructor
  · intro num _
    constructor
    · rintro ⟨fuel, ⟨r, a'⟩, hrun, hclean⟩
      refine fits_of_backed ha hk hrun fun hr => ?_
      subst hr
      exact hclean.backed
    · intro h
      obtain ⟨fuel, r, a', hrun⟩ := h.returns ha
      exact ⟨fuel, _, hrun, (h.clean ha hk hrun).1⟩
  · intro val
    unfold arrayAdd
    dsimp only
    rw [ha.word32_succ]
    constructor
    · rintro ⟨fuel, r, hrun, hclean⟩
      obtain ⟨⟨r', a'⟩, hset, hrun⟩ := Option.bind_eq_some_iff.mp hrun
      refine fits_of_backed ha hk hset fun hr => ?_
      subst hr
      cases hrun
      exact hclean.backed
    · intro h
      obtain ⟨fuel, r, a', hrun⟩ := h.returns ha
      obtain ⟨hclean, hwf⟩ := h.clean ha hk hrun
      refine ⟨fuel, ?_⟩
      rw [hrun]
      cases r with
      | error e => exact ⟨_, rfl, hclean⟩
      | ok u => exact ⟨_, rfl, hclean.store hwf a.num.lt_succ_self⟩

/-- A heap in which one block of the smallest size is left. -/
def kmallocLast (size : ℕ) : Option (ℕ × ℕ) :=
  if size ≤ 16 then some (0x80001000, 16) else none

theorem grants_kmallocLast (mem : ℕ → UInt8) : Grants kmallocLast (arrayInit mem) := by
  intro size p bytes h
  unfold kmallocLast at h
  split_ifs at h with hle
  cases h
  exact ⟨hle, by decide, by decide, by decide, Or.inr (Nat.zero_le _)⟩

theorem wf_of_run_four : ∃ a, Run Step (arrayInit fun _ => 0) [.setsize 4] a ∧ a.WF :=
  have hr := Run.start.snoc (.setsize (grants_kmallocLast _) (.inr (.inl (by decide)))
    (show arraySetsize _ 3 _ 4 = some (.ok (), _) from rfl))
  ⟨_, hr, wf_of_run hr⟩

/-- An empty array gets four elements. -/
theorem array_growth_iff_four : ∃ fuel r,
    arraySetsize kmallocLast fuel (arrayInit fun _ => 0) 4 = some r ∧
      Clean (arrayInit fun _ => 0) 4 r :=
  ((array_growth_iff (wf_arrayInit _) (grants_kmallocLast _)).1 4 (by decide)).mpr
    (Or.inr (Or.inl (by decide)))

/-- An empty array is said to have room for `2 ^ 30` elements in a block of sixteen bytes, and
for more than `2 ^ 31` the call does not return. -/
theorem array_overgrown : ∃ a', arraySetsize kmallocLast 30 (arrayInit fun _ => 0) (2 ^ 29 + 1) =
      some (.ok (), a') ∧ a'.num = 2 ^ 29 + 1 ∧ a'.max = 2 ^ 30 ∧ a'.bytes = 16 ∧
      a'.v + a'.bytes ≤ a'.addr 4 ∧
    ∀ fuel, arraySetsize kmallocLast fuel (arrayInit fun _ => 0) (2 ^ 31 + 1) = none := by
  refine ⟨_, rfl, rfl, rfl, rfl, by decide, fun fuel => ?_⟩
  refine Option.eq_none_iff_forall_ne_some.mpr fun r hr => ?_
  obtain ⟨h, -⟩ | ⟨-, m, hm, -⟩ := arraySetsize_cases hr
  · exact absurd h (by decide)
  · obtain ⟨hle, -, t, -, h31, rfl⟩ := growLoop_eq_some (Or.inl rfl) (by decide) hm
    have := Nat.pow_le_pow_right (show 0 < 2 by decide) h31
    omega

end PtrArray

end OS161
