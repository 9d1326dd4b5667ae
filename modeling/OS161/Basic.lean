import OS161.Outcome
import Mathlib.Algebra.Ring.Int.Defs
import Mathlib.Algebra.Ring.Nat
import Mathlib.Data.Finset.Basic

/-!
# Halts, errors and page arithmetic

Kernel code returns, or stops the machine. `Halt` lists the ways to stop : `panic`, a
failed `KASSERT`, a dereferenced `NULL`, and a loop that makes no progress. A kernel
function that may stop is a function into `Except Halt`, with the state passed
explicitly. `Halt.Resource` are the panics, which the kernel raises when it runs out of
memory or swap space or a file is truncated; a specification `Meets Halt.Resource Q`
excludes every other halt.

Addresses and sizes are natural numbers. Where the source computes in 32 bits and a
result can leave the range, the reduction modulo `2 ^ 32` (`word32`) is written out.
-/

namespace OS161

/-! ## Ways to stop -/

/-- The ways kernel code stops the machine. -/
inductive Halt
  | panic (msg : String)
  | kassert (cond : String)
  | nullDeref
  | hang
  deriving DecidableEq, Repr

/-- Any way to stop. -/
abbrev anyHalt : Halt → Prop :=
  fun _ => True

/-- The halts by `panic`. -/
def Halt.Resource : Halt → Prop
  | .panic _ => True
  | _ => False

/-- `KASSERT(p)`. -/
def kassert (p : Prop) [Decidable p] (cond : String) : Except Halt Unit :=
  if p then .ok () else .error (.kassert cond)

theorem kassert_pos {p : Prop} [Decidable p] (h : p) (cond : String) :
    kassert p cond = .ok () :=
  if_pos h

theorem kassert_eq_ok {p : Prop} [Decidable p] {cond : String} {u : Unit} :
    kassert p cond = .ok u ↔ p := by
  unfold kassert
  split_ifs with h
  · simp [h]
  · simp [h]

/-- Reading through a pointer. -/
def deref {α : Type} : Option α → Except Halt α
  | some a => .ok a
  | none => .error .nullDeref

@[simp] theorem deref_some {α : Type} (a : α) : deref (some a) = .ok a :=
  rfl

/-- An error code of `kern/errno.h`. A function returns one of them, or `0`. -/
structure Errno where
  code : ℕ
  ne_zero : code ≠ 0
  deriving DecidableEq, Repr

namespace Errno

def ENOSYS : Errno := ⟨1, by decide⟩

def ENOMEM : Errno := ⟨3, by decide⟩

def EAGAIN : Errno := ⟨4, by decide⟩

def EFAULT : Errno := ⟨6, by decide⟩

def ENAMETOOLONG : Errno := ⟨7, by decide⟩

def EINVAL : Errno := ⟨8, by decide⟩

def ENOEXEC : Errno := ⟨13, by decide⟩

def ENOTDIR : Errno := ⟨17, by decide⟩

def EISDIR : Errno := ⟨18, by decide⟩

def ENOENT : Errno := ⟨19, by decide⟩

def EEXIST : Errno := ⟨22, by decide⟩

def ENODEV : Errno := ⟨25, by decide⟩

def ENXIO : Errno := ⟨26, by decide⟩

def EBUSY : Errno := ⟨27, by decide⟩

def ENFILE : Errno := ⟨29, by decide⟩

def EIO : Errno := ⟨32, by decide⟩

def ENOSPC : Errno := ⟨36, by decide⟩

def EFBIG : Errno := ⟨38, by decide⟩

end Errno

/-! ## Bytes -/

/-- `dst` with `len` bytes from `start` on replaced by those of `src` from `offset` on. -/
def moveBytes (src : ℕ → UInt8) (offset : ℕ) (dst : ℕ → UInt8) (start len : ℕ) : ℕ → UInt8 :=
  fun a => if start ≤ a ∧ a < start + len then src (offset + (a - start)) else dst a

/-! ## Words and pages -/

/-- The value of a 32-bit register after a computation with result `a`. -/
def word32 (a : ℕ) : ℕ :=
  a % 2 ^ 32

/-- `DIVROUNDUP(a, b)`, without the wrap of the sum. -/
def divroundup (a b : ℕ) : ℕ :=
  (a + b - 1) / b

/-- `PAGE_SIZE`. -/
def pageSize : ℕ :=
  4096

/-- `a & PAGE_FRAME` : the address of the page of a 32-bit address. -/
def pageFrame (a : ℕ) : ℕ :=
  a / 4096 * 4096

/-- `a & ~PAGE_FRAME` : the offset within the page. -/
def pageOffset (a : ℕ) : ℕ :=
  a % 4096

/-- `MIPS_KSEG0`, the start of the kernel's direct-mapped segment. -/
def mipsKseg0 : ℕ :=
  0x80000000

/-- `PADDR_TO_KVADDR(paddr)`. -/
def paddrToKvaddr (paddr : ℕ) : ℕ :=
  mipsKseg0 + paddr

/-- `KVADDR_TO_PADDR(vaddr)`. It is irreducible because the subtraction of so large a
numeral unfolds one step at a time. -/
@[irreducible] def kvaddrToPaddr (vaddr : ℕ) : ℕ :=
  vaddr - mipsKseg0

theorem kvaddrToPaddr_paddrToKvaddr (paddr : ℕ) : kvaddrToPaddr (paddrToKvaddr paddr) = paddr := by
  unfold kvaddrToPaddr paddrToKvaddr
  exact Nat.add_sub_cancel_left _ _

/-- `USERSPACETOP`, the address above the last user address. -/
def userspacetop : ℕ :=
  mipsKseg0

theorem pageSize_pos : 0 < pageSize := by
  decide

theorem pageOffset_lt (a : ℕ) : pageOffset a < pageSize :=
  Nat.mod_lt _ pageSize_pos

theorem pageFrame_add_pageOffset (a : ℕ) : pageFrame a + pageOffset a = a := by
  unfold pageFrame pageOffset
  omega

/-- Two addresses of one page are less than a page apart. -/
theorem lt_add_of_pageFrame_eq {a b : ℕ} (h : pageFrame a = pageFrame b) : a < b + pageSize := by
  have ha := pageFrame_add_pageOffset a
  have hb := pageFrame_add_pageOffset b
  have := pageOffset_lt a
  omega

theorem pageFrame_le (a : ℕ) : pageFrame a ≤ a := by
  unfold pageFrame
  omega

/-- A page address has its multiple of `PAGE_SIZE` as page number. -/
theorem pageFrame_mul (f : ℕ) : pageFrame (f * pageSize) = f * pageSize := by
  unfold pageFrame pageSize
  omega

theorem mul_pageSize_div (f : ℕ) : f * pageSize / pageSize = f :=
  Nat.mul_div_cancel f pageSize_pos

theorem mul_pageSize_add_div {f o : ℕ} (ho : o < pageSize) : (f * pageSize + o) / pageSize = f := by
  unfold pageSize at *
  omega

theorem paddrToKvaddr_inj {a b : ℕ}
    (h : paddrToKvaddr (a * pageSize) = paddrToKvaddr (b * pageSize)) : a = b := by
  have := congrArg kvaddrToPaddr h
  rw [kvaddrToPaddr_paddrToKvaddr, kvaddrToPaddr_paddrToKvaddr] at this
  exact Nat.eq_of_mul_eq_mul_right pageSize_pos this

theorem mul_pageSize_mod (f : ℕ) : f * pageSize % pageSize = 0 :=
  Nat.mul_mod_left f pageSize

end OS161
