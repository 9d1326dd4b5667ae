import OS161.Transition
import OS161.Uio

/-!
# Transfers through the emu device

Every read and write of a file of emufs goes through one device : the registers `HANDLE`,
`OFFSET`, `IOLEN`, `OPER` and `RESULT`, and one buffer. `emu_doread` and `emu_write` program
the registers one after the other, start the operation by the write to `OPER`, sleep in
`emu_waitdone` until the interrupt, and take the result from the registers and the buffer.
Between any two of these accesses another thread may run (`EmuPlace`). The lock `e_lock`
around them is taken with `lock_acquire`, which does nothing.

The device is a function of its own state `δ` (the files) and of the registers and the
buffer at the time `OPER` is written. `EmuSys` has any number of threads; for each it keeps,
beside the state of the driver, what the device was asked and what it answered when the
thread last wrote `OPER`. A call that returns is `EmuEvent.Own` if the device was asked what
the call asks for, and the call returned what the device answered.

With one thread at a time between `lock_acquire` and `lock_release` every call is its own
(`transfers_own_of_run`). Without that the calls mix (`transfers_mixed_small`).
-/

namespace OS161

open Function

/-! ## The device -/

/-- The operations of `REG_OPER` that transfer data. -/
inductive EmuOp
  | read
  | readdir
  | write
  deriving DecidableEq, Repr

/-- The result codes of `REG_RESULT`. -/
inductive EmuRes
  | success
  | badHandle
  | badOp
  | badPath
  | badSize
  | exists
  | isDir
  | media
  | noHandles
  | noSpace
  | notDir
  | unknown
  | unsupp
  | other (code : ℕ)
  deriving DecidableEq, Repr

/-- What the device finds when `OPER` is written. -/
structure EmuReq where
  oper : EmuOp
  handle : ℕ
  iolen : ℕ
  offset : ℕ
  buffer : ℕ → UInt8

/-- What the device leaves in the registers and the buffer. -/
structure EmuResp where
  result : EmuRes
  handle : ℕ
  iolen : ℕ
  offset : ℕ
  buffer : ℕ → UInt8

/-- The registers and the buffer, the interrupt line, `e_result` and the count of `e_sem`. -/
structure Emu where
  handle : ℕ
  iolen : ℕ
  offset : ℕ
  result : EmuRes
  buffer : ℕ → UInt8
  irq : Bool
  eResult : EmuRes
  eSem : ℕ

/-- `emu_irq`. -/
def emuIrq (e : Emu) : Emu :=
  { e with
    eResult := e.result
    result := .other 0
    irq := false
    eSem := e.eSem + 1 }

/-- `translate_err` : `none` for `0`. -/
def translateErr : EmuRes → Except Halt (Option Errno)
  | .success => .ok none
  | .badHandle | .badOp | .badSize => .error (.panic "emu%d: got fatal result code %d\n")
  | .badPath => .ok (some .ENOENT)
  | .exists => .ok (some .EEXIST)
  | .isDir => .ok (some .EISDIR)
  | .media => .ok (some Errno.EIO)
  | .noHandles => .ok (some .ENFILE)
  | .noSpace => .ok (some .ENOSPC)
  | .notDir => .ok (some .ENOTDIR)
  | .unknown => .ok (some Errno.EIO)
  | .unsupp => .ok (some .ENOSYS)
  | .other _ => .ok (some .EAGAIN)

/-! ## The calls -/

/-- A call of `emu_doread` or `emu_write`. -/
structure EmuCall where
  oper : EmuOp
  handle : ℕ
  len : ℕ
  uio : Uio

namespace EmuCall

/-- What the callers promise : the direction of the uio, which `KASSERT`s check, and room in
it for the bytes. -/
structure Wf (call : EmuCall) : Prop where
  rw_eq : call.uio.uioRw = if call.oper = .write then .write else .read
  len_le : call.len ≤ call.uio.uioResid
  resid_lt : call.uio.uioResid < 2 ^ 32
  resid_le : call.uio.uioResid ≤ call.uio.uioIov.sum

instance (call : EmuCall) : Decidable call.Wf :=
  decidable_of_iff (call.uio.uioRw = (if call.oper = .write then .write else .read) ∧
      call.len ≤ call.uio.uioResid ∧ call.uio.uioResid < 2 ^ 32 ∧
        call.uio.uioResid ≤ call.uio.uioIov.sum)
    ⟨fun ⟨h1, h2, h3, h4⟩ => ⟨h1, h2, h3, h4⟩, fun ⟨h1, h2, h3, h4⟩ => ⟨h1, h2, h3, h4⟩⟩

/-- The offset is one the device has no register for. -/
def Beyond (call : EmuCall) : Prop :=
  0xffffffff < call.uio.uioOffset

instance (call : EmuCall) : Decidable call.Beyond :=
  inferInstanceAs (Decidable (_ < _))

/-- What a call beyond the largest offset returns : end of file, or `EFBIG`. -/
def beyond (call : EmuCall) : Option Errno :=
  if call.oper = .write then some .EFBIG else none

/-- The request is the one the call is to make. -/
structure Asks (call : EmuCall) (req : EmuReq) : Prop where
  oper : req.oper = call.oper
  handle : req.handle = call.handle
  iolen : req.iolen = call.len
  offset : req.offset = call.uio.uioOffset
  data : call.oper = .write → ∀ i, i < call.len → req.buffer i = call.uio.bytes.getD i 0

/-- The bytes of a write have left the uio. -/
structure Taken (call : EmuCall) (uio : Uio) : Prop where
  bytes : uio.bytes = call.uio.bytes.drop call.len
  resid : uio.uioResid = call.uio.uioResid - call.len
  offset : uio.uioOffset = call.uio.uioOffset + call.len

/-- The call returned what the device answered : an error, and then a read has moved
nothing; or, for a read, the bytes of the buffer and the new offset. -/
def Returns (call : EmuCall) (resp : EmuResp) (result : Option Errno) (uio : Uio) : Prop :=
  translateErr resp.result = .ok result ∧
    if call.oper = .write then call.Taken uio
    else if result.isSome then uio = call.uio
    else ∃ u, (uiomove resp.buffer 0 resp.iolen call.uio).map Prod.snd = .ok u ∧
      uio = { u with uioOffset := resp.offset }

end EmuCall

/-- The next thing a thread does in `emu_doread` or `emu_write`. -/
inductive EmuPlace
  | setHandle
  | setIolen
  | setOffset
  | fill
  | setOper
  | waitDone
  | translate
  | empty
  | getOffset
  | release (result : Option Errno)
  deriving DecidableEq, Repr

/-- A thread inside a call. -/
structure EmuThread where
  call : EmuCall
  place : EmuPlace
  uio : Uio

/-- The driver, the files behind the device, the threads, and what the device was asked and
answered when the thread wrote `OPER` in its call. -/
structure EmuSys (δ : Type) where
  emu : Emu
  files : δ
  threads : ℕ → Option EmuThread
  asked : ℕ → Option (EmuReq × EmuResp)

/-- A thread calls, a thread inside a call does the next thing, the device interrupts. -/
inductive EmuAct
  | enter (t : ℕ) (call : EmuCall)
  | run (t : ℕ)
  | irq

/-- What happened. -/
inductive EmuEvent
  | entered
  | ran
  | done (call : EmuCall) (result : Option Errno) (uio : Uio) (asked : Option (EmuReq × EmuResp))
  | interrupted

/-- A call that returns has got the device to do what it asks for, and returns what the
device answered. -/
def EmuEvent.Own : EmuEvent → Prop
  | .done call result uio asked =>
    if call.Beyond then result = call.beyond ∧ uio = call.uio
    else ∃ req resp, asked = some (req, resp) ∧ call.Asks req ∧ call.Returns resp result uio
  | _ => True

/-! ## The system -/

namespace EmuSys

variable {δ : Type} (dev : δ → EmuReq → EmuResp × δ)

/-- The thread comes to `place`. -/
def goto (s : EmuSys δ) (t : ℕ) (th : EmuThread) (place : EmuPlace) : EmuSys δ :=
  { s with threads := update s.threads t (some { th with place := place }) }

/-- The write to `REG_OPER`. -/
def setOper (s : EmuSys δ) (t : ℕ) (th : EmuThread) : EmuSys δ :=
  let req : EmuReq := ⟨th.call.oper, s.emu.handle, s.emu.iolen, s.emu.offset, s.emu.buffer⟩
  let (resp, files) := dev s.files req
  { s.goto t th .waitDone with
    emu := { s.emu with
      handle := resp.handle
      iolen := resp.iolen
      offset := resp.offset
      result := resp.result
      buffer := resp.buffer
      irq := true }
    files := files
    asked := update s.asked t (some (req, resp)) }

/-- What thread `t` does next. -/
def run (s : EmuSys δ) (t : ℕ) (th : EmuThread) : Except Halt (EmuEvent × EmuSys δ) :=
  match th.place with
  | .setHandle =>
    .ok (.ran, { s.goto t th .setIolen with emu := { s.emu with handle := th.call.handle } })
  | .setIolen =>
    .ok (.ran, { s.goto t th .setOffset with emu := { s.emu with iolen := th.call.len } })
  | .setOffset =>
    .ok (.ran, { s.goto t th (if th.call.oper = .write then .fill else .setOper) with
      emu := { s.emu with offset := th.uio.uioOffset } })
  | .fill => do
    let (buffer, uio) ← uiomove s.emu.buffer 0 th.call.len th.uio
    .ok (.ran, { s.goto t { th with uio := uio } .setOper with
      emu := { s.emu with buffer := buffer } })
  | .setOper => .ok (.ran, s.setOper dev t th)
  | .waitDone =>
    .ok (.ran, { s.goto t th .translate with emu := { s.emu with eSem := s.emu.eSem - 1 } })
  | .translate => do
    match ← translateErr s.emu.eResult with
    | some e => .ok (.ran, s.goto t th (.release (some e)))
    | none => .ok (.ran, s.goto t th (if th.call.oper = .write then .release none else .empty))
  | .empty => do
    let (_, uio) ← uiomove s.emu.buffer 0 s.emu.iolen th.uio
    .ok (.ran, s.goto t { th with uio := uio } .getOffset)
  | .getOffset =>
    .ok (.ran, s.goto t { th with uio := { th.uio with uioOffset := s.emu.offset } }
      (.release none))
  | .release result =>
    .ok (.done th.call result th.uio (s.asked t),
      { s with threads := update s.threads t none })

/-- A thread calls one thing at a time; a thread in `P` goes on when the count is positive;
the device interrupts when an operation is complete. -/
def Allowed (s : EmuSys δ) : EmuAct → Prop
  | .enter t call => (s.threads t).isNone ∧ call.Wf
  | .run t => ∃ th ∈ s.threads t, th.place = .waitDone → 0 < s.emu.eSem
  | .irq => s.emu.irq = true

instance (s : EmuSys δ) (act : EmuAct) : Decidable (s.Allowed act) :=
  match act with
  | .enter t call => inferInstanceAs (Decidable ((s.threads t).isNone ∧ call.Wf))
  | .run t => inferInstanceAs (Decidable (∃ th ∈ s.threads t, _ → _))
  | .irq => inferInstanceAs (Decidable (_ = true))

/-- One step of a thread or of the device. -/
def exec (s : EmuSys δ) : EmuAct → Except Halt (EmuEvent × EmuSys δ)
  | .enter t call =>
    if call.Beyond then .ok (.done call call.beyond call.uio none, s)
    else .ok (.entered, { s with
      threads := update s.threads t (some ⟨call, .setHandle, call.uio⟩)
      asked := update s.asked t none })
  | .run t =>
    match s.threads t with
    | none => .ok (.ran, s)
    | some th => s.run dev t th
  | .irq => .ok (.interrupted, { s with emu := emuIrq s.emu })

/-- One step that does not stop the machine. -/
def Step (s : EmuSys δ) (ev : EmuAct × EmuEvent) (s' : EmuSys δ) : Prop :=
  s.Allowed ev.1 ∧ s.exec dev ev.1 = .ok (ev.2, s')

/-- The step of an allowed act, for concrete runs. -/
def next (s : EmuSys δ) (act : EmuAct) : Option ((EmuAct × EmuEvent) × EmuSys δ) :=
  if s.Allowed act then (s.exec dev act).toOption.map fun r => ((act, r.1), r.2) else none

/-- The state after `config_emu`. -/
structure Start (s : EmuSys δ) : Prop where
  threads : ∀ t, s.threads t = none
  irq : s.emu.irq = false
  sem : s.emu.eSem = 0

/-- A thread calls only when no thread is inside a call : what `e_lock` is for. -/
def Exclusive (s : EmuSys δ) (ev : EmuAct × EmuEvent) : Prop :=
  match ev.1 with
  | .enter _ _ => ∀ t, s.threads t = none
  | _ => True

/-! ## One thread at a time -/

end EmuSys

/-- No operation is under way. -/
structure Emu.Idle (e : Emu) : Prop where
  irq : e.irq = false
  sem : e.eSem = 0

/-- The answer is still in the registers and the buffer. -/
structure Emu.Holds (e : Emu) (resp : EmuResp) : Prop where
  iolen : e.iolen = resp.iolen
  offset : e.offset = resp.offset
  buffer : e.buffer = resp.buffer

/-- The operation is complete and has not interrupted, or has interrupted and nobody was
woken. -/
def Emu.Complete (e : Emu) (resp : EmuResp) : Prop :=
  (e.irq = true ∧ e.eSem = 0 ∧ e.result = resp.result) ∨
    (e.irq = false ∧ e.eSem = 1 ∧ e.eResult = resp.result)

namespace EmuThread

/-- Up to `OPER` : the registers written so far are those of the call. -/
def Programs (th : EmuThread) (e : Emu) : Prop :=
  e.Idle ∧
    match th.place with
    | .setHandle => th.uio = th.call.uio
    | .setIolen => th.uio = th.call.uio ∧ e.handle = th.call.handle
    | .setOffset => th.uio = th.call.uio ∧ e.handle = th.call.handle ∧ e.iolen = th.call.len
    | .fill => th.uio = th.call.uio ∧ th.call.oper = .write ∧ e.handle = th.call.handle ∧
        e.iolen = th.call.len ∧ e.offset = th.call.uio.uioOffset
    | .setOper => (if th.call.oper = .write then th.call.Taken th.uio else th.uio = th.call.uio) ∧
        th.call.Asks ⟨th.call.oper, e.handle, e.iolen, e.offset, e.buffer⟩
    | _ => False

/-- From `OPER` on : the device was asked what the call asks for, and its answer is where the
call will look for it. -/
def Receives (th : EmuThread) (e : Emu) (resp : EmuResp) : Prop :=
  match th.place with
  | .waitDone => e.Complete resp ∧ e.Holds resp ∧
      if th.call.oper = .write then th.call.Taken th.uio else th.uio = th.call.uio
  | .translate => e.Idle ∧ e.eResult = resp.result ∧ e.Holds resp ∧
      if th.call.oper = .write then th.call.Taken th.uio else th.uio = th.call.uio
  | .empty => e.Idle ∧ e.Holds resp ∧ translateErr resp.result = .ok none ∧
      th.call.oper ≠ .write ∧ th.uio = th.call.uio
  | .getOffset => e.Idle ∧ e.offset = resp.offset ∧ translateErr resp.result = .ok none ∧
      th.call.oper ≠ .write ∧
        (uiomove resp.buffer 0 resp.iolen th.call.uio).map Prod.snd = .ok th.uio
  | .release result => e.Idle ∧ th.call.Returns resp result th.uio
  | _ => False

/-- The one thread inside a call. -/
structure Ok (th : EmuThread) (e : Emu) (asked : Option (EmuReq × EmuResp)) : Prop where
  wf : th.call.Wf
  below : ¬th.call.Beyond
  place : th.Programs e ∨ ∃ req resp, asked = some (req, resp) ∧ th.call.Asks req ∧
    th.Receives e resp

variable {th : EmuThread} {e : Emu} {asked : Option (EmuReq × EmuResp)}

theorem Ok.programs (h : th.Ok e asked) (hno : ∀ resp, ¬th.Receives e resp) : th.Programs e := by
  rcases h.place with hp | ⟨req, resp, -, -, hr⟩
  · exact hp
  · exact (hno resp hr).elim

theorem Ok.receives (h : th.Ok e asked) (hno : ¬th.Programs e) :
    ∃ req resp, asked = some (req, resp) ∧ th.call.Asks req ∧ th.Receives e resp :=
  h.place.resolve_left hno

end EmuThread

namespace EmuSys

variable {δ : Type} {dev : δ → EmuReq → EmuResp × δ} {s s' : EmuSys δ} {t : ℕ} {th : EmuThread}
  {ev : EmuAct × EmuEvent} {s₀ : EmuSys δ} {tr : List (EmuAct × EmuEvent)} {acts : List EmuAct}

/-- At most one thread is inside, and the device is at its call. -/
structure Inv (s : EmuSys δ) : Prop where
  one : ∀ t u, (s.threads t).isSome → (s.threads u).isSome → t = u
  idle : (∀ t, s.threads t = none) → s.emu.Idle
  ok : ∀ t th, s.threads t = some th → th.Ok s.emu (s.asked t)

theorem Inv.other (h : s.Inv) (ht : s.threads t = some th) {u : ℕ} (hne : u ≠ t) :
    s.threads u = none := by
  by_contra hu
  exact hne (h.one u t (Option.isSome_iff_ne_none.mpr hu) (Option.isSome_iff_exists.mpr ⟨th, ht⟩))

/-- One thread is inside a call. -/
theorem Inv.of_thread (hother : ∀ u, u ≠ t → s.threads u = none) {s' : EmuSys δ}
    (hs' : s'.threads = update s.threads t (some th))
    (hth : th.Ok s'.emu (s'.asked t)) : s'.Inv := by
  have honly : ∀ u, (s'.threads u).isSome → u = t := by
    intro u hu
    by_contra hne
    rw [hs', update_of_ne hne, hother u hne] at hu
    cases hu
  refine ⟨fun u v hu hv => (honly u hu).trans (honly v hv).symm, fun hnone => ?_, ?_⟩
  · have hsome := hnone t
    rw [hs', update_self] at hsome
    cases hsome
  · intro u th' hu
    obtain rfl : u = t := honly u (Option.isSome_iff_exists.mpr ⟨th', hu⟩)
    rw [hs', update_self] at hu
    cases hu
    exact hth

/-- The bytes of a write, in the buffer. -/
theorem Taken.of_transfer {call : EmuCall} (buf : ℕ → UInt8) (hwf : call.Wf)
    (hrw : call.uio.uioRw = .write) :
    call.Taken (call.uio.transfer buf 0 call.len).2 ∧ ∀ i, i < call.len →
      (call.uio.transfer buf 0 call.len).1 i = call.uio.bytes.getD i 0 := by
  have hres := Uio.uioResid_transfer buf 0 hwf.resid_lt hwf.len_le
  refine ⟨⟨?_, hres, ?_⟩, fun i hi => ?_⟩
  · simp only [Uio.transfer, hrw]
  · simp only [Uio.transfer, hrw]
  · simp only [Uio.transfer, hrw, moveBytes, Nat.zero_add, Nat.sub_zero]
    exact if_pos ⟨Nat.zero_le i, hi⟩

/-- One step of the thread inside a call. -/
theorem run_inv (h : s.Inv) (ht : s.threads t = some th)
    (hsem : th.place = .waitDone → 0 < s.emu.eSem) {ev : EmuEvent}
    (he : s.run dev t th = .ok (ev, s')) : s'.Inv ∧ ev.Own := by
  have hother : ∀ u, u ≠ t → s.threads u = none := fun u hne => h.other ht hne
  have hok := h.ok t th ht
  have hwf := hok.wf
  have hbelow := hok.below
  obtain ⟨call, place, uio⟩ := th
  cases place with
  | setHandle =>
    obtain ⟨hidle, hu⟩ := hok.programs fun _ hf => hf
    cases he
    exact ⟨Inv.of_thread hother rfl ⟨hwf, hbelow, .inl ⟨⟨hidle.1, hidle.2⟩, hu, rfl⟩⟩, trivial⟩
  | setIolen =>
    obtain ⟨hidle, hu, hh⟩ := hok.programs fun _ hf => hf
    cases he
    exact ⟨Inv.of_thread hother rfl ⟨hwf, hbelow, .inl ⟨⟨hidle.1, hidle.2⟩, hu, hh, rfl⟩⟩, trivial⟩
  | setOffset =>
    obtain ⟨hidle, hu, hh, hl⟩ := hok.programs fun _ hf => hf
    cases he
    refine ⟨Inv.of_thread hother rfl ⟨hwf, hbelow, .inl ⟨⟨hidle.1, hidle.2⟩, ?_⟩⟩, trivial⟩
    have hoff : uio.uioOffset = call.uio.uioOffset := congrArg Uio.uioOffset hu
    by_cases hw : call.oper = .write
    · simp only [hw, if_true]
      exact ⟨hu, trivial, hh, hl, hoff⟩
    · simp only [hw, if_false]
      exact ⟨hu, rfl, hh, hl, hoff, fun hw' => (hw hw').elim⟩
  | fill =>
    obtain ⟨hidle, hu, hw, hh, hl, ho⟩ := hok.programs fun _ hf => hf
    dsimp only at hu hw hh hl ho hwf hbelow
    subst hu
    obtain ⟨iov', -, hmove⟩ := uiomove_eq s.emu.buffer 0 hwf.resid_lt hwf.len_le hwf.resid_le
    have hrw : call.uio.uioRw = .write := by rw [hwf.rw_eq, if_pos hw]
    unfold run at he
    rw [hmove, ok_bind] at he
    cases he
    have htaken := Taken.of_transfer s.emu.buffer hwf hrw
    refine ⟨Inv.of_thread hother rfl ⟨hwf, hbelow, .inl ⟨⟨hidle.1, hidle.2⟩, ?_, ?_⟩⟩, trivial⟩
    · exact (if_pos hw).mpr ⟨htaken.1.bytes, htaken.1.resid, htaken.1.offset⟩
    · exact ⟨rfl, hh, hl, ho, fun _ => htaken.2⟩
  | setOper =>
    obtain ⟨hidle, hu, hasks⟩ := hok.programs fun _ hf => hf
    cases he
    refine ⟨Inv.of_thread hother rfl ⟨hwf, hbelow, .inr ⟨_, _, update_self _ _ _, hasks, ?_⟩⟩,
      trivial⟩
    exact ⟨.inl ⟨rfl, hidle.sem, rfl⟩, ⟨rfl, rfl, rfl⟩, hu⟩
  | waitDone =>
    obtain ⟨req, resp, hask, hasks, hcomp, hholds, hu⟩ := hok.receives fun hf => hf.2
    cases he
    obtain ⟨-, h0, -⟩ | ⟨hirq, h1, hres⟩ := hcomp
    · exact absurd (hsem rfl) (by rw [h0]; decide)
    · refine ⟨Inv.of_thread hother rfl ⟨hwf, hbelow, .inr ⟨req, resp, hask, hasks, ?_⟩⟩, trivial⟩
      have hsem0 : s.emu.eSem - 1 = 0 := by rw [h1]
      exact ⟨⟨hirq, hsem0⟩, hres, ⟨hholds.1, hholds.2, hholds.3⟩, hu⟩
  | translate =>
    obtain ⟨req, resp, hask, hasks, hidle, hres, hholds, hu⟩ := hok.receives fun hf => hf.2
    unfold run at he
    obtain ⟨r, hr, he⟩ := bind_eq_ok.mp he
    rw [hres] at hr
    cases r with
    | some e =>
      cases he
      refine ⟨Inv.of_thread hother rfl ⟨hwf, hbelow, .inr ⟨req, resp, hask, hasks, hidle, hr, ?_⟩⟩,
        trivial⟩
      exact hu
    | none =>
      cases he
      refine ⟨Inv.of_thread hother rfl ⟨hwf, hbelow, .inr ⟨req, resp, hask, hasks, ?_⟩⟩, trivial⟩
      by_cases hw : call.oper = .write
      · simp only [hw, if_true] at hu ⊢
        refine ⟨hidle, hr, ?_⟩
        rw [if_pos hw]
        exact hu
      · simp only [hw, if_false] at hu ⊢
        exact ⟨hidle, hholds, hr, hw, hu⟩
  | empty =>
    obtain ⟨req, resp, hask, hasks, hidle, hholds, hr, hw, hu⟩ := hok.receives fun hf => hf.2
    obtain ⟨⟨buf, u⟩, hmove, he⟩ := bind_eq_ok.mp he
    cases he
    refine ⟨Inv.of_thread hother rfl ⟨hwf, hbelow,
      .inr ⟨req, resp, hask, hasks, hidle, hholds.offset,
      hr, hw, ?_⟩⟩, trivial⟩
    rw [hholds.buffer, hholds.iolen, hu] at hmove
    rw [hmove]
    rfl
  | getOffset =>
    obtain ⟨req, resp, hask, hasks, hidle, hoff, hr, hw, hmove⟩ := hok.receives fun hf => hf.2
    cases he
    refine ⟨Inv.of_thread hother rfl ⟨hwf, hbelow, .inr ⟨req, resp, hask, hasks, hidle, hr, ?_⟩⟩,
      trivial⟩
    rw [if_neg hw]
    exact ⟨uio, hmove, by rw [hoff]⟩
  | release result =>
    obtain ⟨req, resp, hask, hasks, hidle, hret⟩ := hok.receives fun hf => hf.2
    cases he
    have hnone : ∀ u, update s.threads t none u = none := by
      intro u
      by_cases hut : u = t
      · rw [hut, update_self]
      · rw [update_of_ne hut]
        exact hother u hut
    refine ⟨⟨fun u v hu _ => ?_, fun _ => hidle, fun u th hu => ?_⟩, ?_⟩
    · exact absurd (hnone u) (Option.isSome_iff_ne_none.mp hu)
    · exact absurd ((hnone u).symm.trans hu) nofun
    · exact (if_neg hbelow).mpr ⟨req, resp, hask, hasks, hret⟩

theorem step_inv (h : s.Inv) (hs : s.Step dev ev s')
    (hex : s.Exclusive ev) : s'.Inv ∧ ev.2.Own := by
  obtain ⟨act, ev⟩ := ev
  obtain ⟨hal, he⟩ := hs
  cases act with
  | enter t call =>
    obtain ⟨-, hwf⟩ := hal
    have hnone : ∀ u, s.threads u = none := hex
    unfold exec at he
    dsimp only at he
    split_ifs at he with hb
    · cases he
      exact ⟨h, (if_pos hb).mpr ⟨rfl, rfl⟩⟩
    · cases he
      exact ⟨Inv.of_thread (fun u _ => hnone u) rfl ⟨hwf, hb, .inl ⟨h.idle hnone, rfl⟩⟩, trivial⟩
  | run t =>
    obtain ⟨th, hth, hsem⟩ := hal
    have hth' : s.threads t = some th := hth
    unfold exec at he
    dsimp only at he
    rw [hth'] at he
    exact run_inv h hth' hsem he
  | irq =>
    have hirq : s.emu.irq = true := hal
    have hbusy : ¬s.emu.Idle := fun hidle => nomatch hirq.symm.trans hidle.irq
    cases he
    refine ⟨⟨h.one, fun hnone => (hbusy (h.idle hnone)).elim, fun t th ht => ?_⟩, trivial⟩
    have hok := h.ok t th ht
    -- only a thread that waits can have left the device busy
    obtain ⟨req, resp, hask, hasks, hrec⟩ := hok.receives fun hp => hbusy hp.1
    refine ⟨hok.wf, hok.below, .inr ⟨req, resp, hask, hasks, ?_⟩⟩
    obtain ⟨call, place, uio⟩ := th
    cases place with
    | waitDone =>
      obtain ⟨hcomp, hholds, hu⟩ := hrec
      obtain ⟨-, h0, hres⟩ | ⟨hirq', -, -⟩ := hcomp
      · have hsem : s.emu.eSem + 1 = 1 := by rw [h0]
        exact ⟨.inr ⟨rfl, hsem, hres⟩, ⟨hholds.1, hholds.2, hholds.3⟩, hu⟩
      · exact nomatch hirq.symm.trans hirq'
    | translate | empty | getOffset | release result => exact (hbusy hrec.1).elim
    | setHandle => exact hrec.elim
    | setIolen => exact hrec.elim
    | setOffset => exact hrec.elim
    | fill => exact hrec.elim
    | setOper => exact hrec.elim

theorem run_inv_own (h₀ : s₀.Start)
    (hrun : Run (guarded Exclusive (Step dev)) s₀ tr s) : s.Inv ∧ ∀ ev ∈ tr, ev.2.Own := by
  refine hrun.trace_induct (I := fun tr (s : EmuSys δ) => s.Inv ∧ ∀ ev ∈ tr, ev.2.Own)
    ⟨⟨?_, ?_, ?_⟩, fun _ hmem => absurd hmem List.not_mem_nil⟩ ?_
  · intro t u ht
    rw [h₀.threads t] at ht
    cases ht
  · exact fun _ => ⟨h₀.irq, h₀.sem⟩
  · intro t th ht
    rw [h₀.threads t] at ht
    cases ht
  · rintro tr s ev s' - ⟨hinv, hown⟩ ⟨hs, hex⟩
    obtain ⟨hinv', hev⟩ := step_inv hinv hs hex
    refine ⟨hinv', fun ev' hmem => ?_⟩
    rcases List.mem_cons.mp hmem with rfl | hmem
    · exact hev
    · exact hown ev' hmem

theorem step_of_next {act : EmuAct}
    (h : s.next dev act = some (ev, s')) : s.Step dev ev s' ∧ ev.1 = act := by
  obtain ⟨hal, r, he, hr⟩ := ok_of_guard_map h
  cases hr
  exact ⟨⟨hal, he⟩, rfl⟩

/-- The step of an allowed act, where one of the threads `ts` calls when none of them is inside. -/
def nextOf (dev : δ → EmuReq → EmuResp × δ) (ts : List ℕ) (s : EmuSys δ) (act : EmuAct) :
    Option ((EmuAct × EmuEvent) × EmuSys δ) :=
  match act with
  | .enter t _ => if t ∈ ts ∧ ∀ u ∈ ts, (s.threads u).isNone then s.next dev act else none
  | _ => s.next dev act

/-- A step moves no other thread. -/
theorem run_threads {ev : EmuEvent} {u : ℕ} (h : s.run dev t th = .ok (ev, s')) (hu : u ≠ t) :
    s'.threads u = s.threads u := by
  have hgoto : ∀ (th : EmuThread) place, (s.goto t th place).threads u = s.threads u :=
    fun th place => update_of_ne hu ..
  unfold run at h
  cases hp : th.place with
  | fill | empty =>
    rw [hp] at h
    obtain ⟨r, -, h⟩ := bind_eq_ok.mp h
    cases h
    exact hgoto ..
  | translate =>
    rw [hp] at h
    obtain ⟨e, -, h⟩ := bind_eq_ok.mp h
    cases e <;> cases h <;> exact hgoto ..
  | release result =>
    rw [hp] at h
    cases h
    exact update_of_ne hu ..
  | _ =>
    rw [hp] at h
    cases h
    exact hgoto ..

/-- A thread that is outside stays outside if it does not call. -/
theorem Step.outside {u : ℕ} (hs : s.Step dev ev s') (h0 : s.threads u = none)
    (hu : ∀ t call, ev.1 = .enter t call → u ≠ t) : s'.threads u = none := by
  obtain ⟨act, ev⟩ := ev
  obtain ⟨hal, he⟩ := hs
  cases act with
  | enter t call =>
    simp only [exec] at he
    split_ifs at he <;> cases he
    · exact h0
    · exact (update_of_ne (hu t call rfl) ..).trans h0
  | run t =>
    obtain ⟨th, hth : s.threads t = some th, -⟩ := hal
    simp only [exec, hth] at he
    refine (run_threads he ?_).trans h0
    rintro rfl
    rw [h0] at hth
    cases hth
  | irq =>
    cases he
    exact h0

/-- A run of calls of the threads `ts`, one after the other. -/
theorem run_of_executeOf {ts : List ℕ} (h₀ : s₀.Start)
    (h : execute (nextOf dev ts) [] s₀ acts = some (tr, s)) :
    Run (guarded Exclusive (Step dev)) s₀ tr s := by
  have hrun : Run (fun s ev s' => ∃ act, s.nextOf dev ts act = some (ev, s')) s₀ tr s :=
    .of_execute h fun h => ⟨_, h⟩
  refine (hrun.trace_induct (I := fun tr s => Run (guarded Exclusive (Step dev)) s₀ tr s ∧
    ∀ u ∉ ts, s.threads u = none) ⟨.start, fun u _ => h₀.threads u⟩ ?_).1
  rintro tr s ev s' - ⟨hr, hout⟩ ⟨act, hn⟩
  have hnext : s.next dev act = some (ev, s') ∧ ∀ t call, act = .enter t call →
      t ∈ ts ∧ ∀ u ∈ ts, (s.threads u).isNone := by
    cases act with
    | enter t call =>
      obtain ⟨hc, hn⟩ := Option.ite_none_right_eq_some.mp hn
      refine ⟨hn, ?_⟩
      rintro t call ⟨⟩
      exact hc
    | _ => exact ⟨hn, nofun⟩
  obtain ⟨hn, hcall⟩ := hnext
  obtain ⟨hs, rfl⟩ := step_of_next hn
  refine ⟨hr.snoc ⟨hs, ?_⟩, fun u hu => hs.outside (hout u hu) ?_⟩
  · unfold Exclusive
    split
    · rename_i t call hact
      intro u
      by_cases hu : u ∈ ts
      · exact Option.isNone_iff_eq_none.mp ((hcall t call hact).2 u hu)
      · exact hout u hu
    · trivial
  · rintro t call hact rfl
    exact hu (hcall u call hact).1

end EmuSys

/-! ## The transfers -/

/-- When the calls exclude each other, each gets its own transfer : for any device, any
number of threads, and any order of their steps and the interrupts. -/
theorem transfers_own_of_run {δ : Type} {dev : δ → EmuReq → EmuResp × δ} {s₀ s : EmuSys δ}
    {tr : List (EmuAct × EmuEvent)} (h₀ : s₀.Start)
    (hrun : Run (guarded EmuSys.Exclusive (EmuSys.Step dev)) s₀ tr s) :
    ∀ ev ∈ tr, ev.2.Own :=
  (EmuSys.run_inv_own h₀ hrun).2

namespace Emu

/-- A device whose files are bytes by handle and offset. -/
def smallDevice (files : ℕ → ℕ → UInt8) (req : EmuReq) : EmuResp × (ℕ → ℕ → UInt8) :=
  match req.oper with
  | .write =>
    (⟨.success, req.handle, req.iolen, req.offset + req.iolen, req.buffer⟩,
      update files req.handle
        (moveBytes req.buffer 0 (files req.handle) req.offset req.iolen))
  | _ =>
    (⟨.success, req.handle, req.iolen, req.offset + req.iolen,
      fun i => files req.handle (req.offset + i)⟩, files)

/-- The files before anything is written : every byte of a file is its handle. -/
def smallStart : EmuSys (ℕ → ℕ → UInt8) where
  emu := ⟨0, 0, 0, .other 0, fun _ => 0, false, .other 0, 0⟩
  files handle _ := UInt8.ofNat handle
  threads _ := none
  asked _ := none

theorem smallStart_start : smallStart.Start :=
  ⟨fun _ => rfl, rfl, rfl⟩

/-- A read of the first four bytes of a file. -/
def smallRead (handle : ℕ) : EmuCall :=
  ⟨.read, handle, 4, ⟨[4], 0, 4, .read, []⟩⟩

/-- A write to them. -/
def smallWrite (handle : ℕ) : EmuCall :=
  ⟨.write, handle, 4, ⟨[4], 0, 4, .write, [1, 2, 3, 4]⟩⟩

end Emu

/-- Handle and offset of a call that has returned, the bytes it got, and the handle the
device was asked for. -/
def EmuEvent.returned : EmuEvent → Option (ℕ × ℕ × List UInt8 × Option ℕ)
  | .done call _ uio asked =>
    some (call.handle, call.uio.uioOffset, uio.bytes, asked.map fun a => a.1.handle)
  | _ => none

/-- A thread writes four bytes to the file with handle `7`, and another one reads them. -/
theorem transfers_own_of_run_small : ∃ tr s, Run (guarded EmuSys.Exclusive
    (EmuSys.Step Emu.smallDevice)) Emu.smallStart tr s ∧ (∀ ev ∈ tr, ev.2.Own) ∧
      tr.head?.bind (fun ev => ev.2.returned) = some (7, 0, [1, 2, 3, 4], some 7) := by
  have h : (execute (EmuSys.nextOf Emu.smallDevice [1, 2]) [] Emu.smallStart
      [.enter 1 (Emu.smallWrite 7), .run 1, .run 1, .run 1, .run 1, .run 1, .irq, .run 1, .run 1,
        .run 1, .enter 2 (Emu.smallRead 7), .run 2, .run 2, .run 2, .run 2, .irq, .run 2, .run 2,
        .run 2, .run 2, .run 2]).map (fun r => r.1.head?.bind fun ev => ev.2.returned) =
      some (some (7, 0, [1, 2, 3, 4], some 7)) := by
    decide +kernel
  obtain ⟨⟨tr, s⟩, he, hret⟩ := Option.map_eq_some_iff.mp h
  have hrun := EmuSys.run_of_executeOf Emu.smallStart_start he
  exact ⟨tr, s, hrun, transfers_own_of_run Emu.smallStart_start hrun, hret⟩

/-- A call for which the device was asked for another handle is not its own. -/
theorem EmuEvent.not_own {ev : EmuEvent} {handle offset handle' : ℕ} {bytes : List UInt8}
    (h : ev.returned = some (handle, offset, bytes, some handle')) (ho : offset ≤ 0xffffffff)
    (hne : handle' ≠ handle) : ¬ev.Own := by
  cases ev with
  | done call result uio asked =>
    simp only [returned, Option.some.injEq, Prod.mk.injEq, Option.map_eq_some_iff] at h
    obtain ⟨rfl, rfl, -, ⟨req, resp⟩, rfl, rfl⟩ := h
    have hb : ¬call.Beyond := Nat.not_lt.mpr ho
    intro hown
    obtain ⟨req', resp', hask, hasks, -⟩ := (if_neg hb).mp hown
    cases hask
    exact hne hasks.handle
  | entered => cases h
  | ran => cases h
  | interrupted => cases h

/-- Thread `1` reads from the file with handle `1`. After it has set `HANDLE`, thread `2`,
which `lock_acquire` does not hold up, sets it to `2`. The device reads file `2`, and thread
`1` gets the bytes of that file. -/
theorem transfers_mixed_small : ∃ tr s, Run (EmuSys.Step Emu.smallDevice) Emu.smallStart tr s ∧
    ∃ ev ∈ tr, ev.2.returned = some (1, 0, [2, 2, 2, 2], some 2) ∧ ¬ev.2.Own := by
  obtain ⟨tr, s, hrun, hd⟩ := Run.exists_of_execute (EmuSys.next Emu.smallDevice)
    (fun h => (EmuSys.step_of_next h).1) Emu.smallStart
    [.enter 1 (Emu.smallRead 1), .run 1, .enter 2 (Emu.smallRead 2), .run 2, .run 1, .run 1,
      .run 1, .irq, .run 1, .run 1, .run 1, .run 1, .run 1]
    (fun tr _ => (tr.head?.bind fun ev => ev.2.returned) = some (1, 0, [2, 2, 2, 2], some 2))
    (by decide +kernel)
  obtain ⟨⟨act, ev⟩, hhead, hret⟩ := Option.bind_eq_some_iff.mp hd
  exact ⟨tr, s, hrun, (act, ev), List.mem_of_mem_head? hhead, hret,
    EmuEvent.not_own hret (by decide) (by decide)⟩

end OS161
