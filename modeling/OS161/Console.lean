import Mathlib.Data.List.ReduceOption
import OS161.Semaphore

/-!
# Console output

`putch` of `dev/generic/console.c` over the serial port driver `dev/lamebus/lser.c`. A thread that
can sleep takes the permit of `cs_wsem` and writes its character to the port; the interrupt at the
end of the transmission gives the permit back. With interrupts off, a character is sent by
polling instead, even while another is being sent.

`ls_lock` is held over a whole section except in `lser_writepolled`, which holds it while the port
is sending; `Polled` is where it waits. The device finishes a character at any time, and loses one
that is written to it while it is sending.

`Con.Inv` says where the permit is : in the semaphore, with a thread on its way to `lser_write`,
in `ls_wbusy`, or with a handler on its way to `con_start` (`Con.run_inv`). From it follow
`console_output` and, with the measure `Con.work`, `console_drains`.
-/

namespace OS161

open Function

variable {T : Type}

/-! ## The serial port -/

/-- `struct lser_softc` with the device : the bits of the write interrupt register, the character
on its way out, those sent before it and those lost, the newest first. -/
structure Lser where
  lsWbusy : Bool
  enable : Bool
  active : Bool
  force : Bool
  sending : Option UInt8
  sent : List UInt8
  lost : List UInt8

namespace Lser

/-- `config_lser`. -/
def config : Lser :=
  ⟨false, true, false, false, none, [], []⟩

/-- A write of the interrupt register clears the ready condition. -/
def writeWirq (ls : Lser) (enable force : Bool) : Lser :=
  { ls with enable := enable, active := false, force := force }

/-- A write of the character register. -/
def writeChar (ls : Lser) (ch : UInt8) : Lser :=
  match ls.sending with
  | none => { ls with sending := some ch }
  | some _ => { ls with lost := ch :: ls.lost }

/-- The device is done with its character. -/
def finish (ls : Lser) : Lser :=
  { ls with sending := none, sent := ls.sending.toList ++ ls.sent, active := true }

/-- All that was given to the device and not lost. -/
def line (ls : Lser) : List UInt8 :=
  ls.sending.toList ++ ls.sent

end Lser

/-- Where `lser_writepolled` waits : for the transmission before, or for its own. -/
inductive Polled
  | before (ch : UInt8)
  | own (irqpending : Bool)

/-! ## The console -/

/-- The console : its semaphore, the characters of the threads in `putch_intr`, those that have the
permit, the port, the polling writer, and the handlers on their way to `con_start`. -/
structure Con (T : Type) where
  csWsem : Sem T
  ch : T → UInt8
  senders : List T
  ls : Lser
  polled : Option Polled
  starts : ℕ

/-- The sections that can run next. -/
inductive ConOp (T : Type)
  | putchIntr (t : T) (ch : UInt8)
  | resume (t : T)
  | write (t : T)
  | writepolled (ch : UInt8)
  | poll
  | irq
  | start (t : T)
  | finish

namespace Con

/-- `config_con`. -/
def config : Con T :=
  ⟨semCreate 1, fun _ => 0, [], .config, none, 0⟩

/-- A thread after a section of `P`. -/
def took (s : Con T) (t : T) (r : SemEvent T × Sem T) : Con T :=
  { s with
    csWsem := r.2
    senders := match r.1 with
      | .acquired _ => t :: s.senders
      | _ => s.senders }

/-- `lser_write`. -/
def lserWrite [DecidableEq T] (s : Con T) (t : T) : Except Halt (Option UInt8 × Con T) :=
  if s.ls.lsWbusy then .error (.panic "lser: Not clear to write\n")
  else .ok (some (s.ch t), { s with
    senders := s.senders.erase t
    ls := { s.ls with lsWbusy := true }.writeChar (s.ch t) })

/-- `lser_writepolled`, up to the loop it waits in. -/
def lserWritepolled (s : Con T) (ch : UInt8) : Option UInt8 × Con T :=
  if s.ls.lsWbusy then (none, { s with polled := some (.before ch) })
  else (some ch, { s with
    ls := (s.ls.writeWirq false false).writeChar ch
    polled := some (.own false) })

/-- The end of a loop of `lser_poll_until_write`, and what follows it. -/
def polledOn (s : Con T) : Option UInt8 × Con T :=
  match s.polled with
  | some (.before ch) => (some ch, { s with
      ls := (s.ls.writeWirq true true).writeChar ch
      polled := some (.own true) })
  | some (.own irqpending) => (none, { s with
      ls := if irqpending then s.ls else s.ls.writeWirq true false
      polled := none })
  | none => (none, s)

/-- `lser_irq`, for the writing side. -/
def lserIrq (s : Con T) : Con T :=
  if s.ls.active then
    { s with ls := { s.ls with lsWbusy := false }.writeWirq true false, starts := s.starts + 1 }
  else s

/-- A section of some thread, of a handler or of the device, with the character it gives to the
device. -/
def exec [DecidableEq T] (s : Con T) : ConOp T → Except Halt (Option UInt8 × Con T)
  | .putchIntr t ch => do
    let r ← s.csWsem.exec (.p t)
    .ok (none, { s with ch := update s.ch t ch }.took t r)
  | .resume t => do
    let r ← s.csWsem.exec (.resume t)
    .ok (none, s.took t r)
  | .write t => s.lserWrite t
  | .writepolled ch => .ok (s.lserWritepolled ch)
  | .poll => .ok s.polledOn
  | .irq => .ok (none, s.lserIrq)
  | .start t => do
    let r ← s.csWsem.v t
    .ok (none, { s with csWsem := r.2, starts := s.starts - 1 })
  | .finish => .ok (none, { s with ls := s.ls.finish })

/-- What may run next : `polled = none` where `ls_lock` is taken. -/
def Allowed (s : Con T) : ConOp T → Prop
  | .putchIntr t _ => t ∉ s.senders ∧ s.csWsem.Allowed (.p t)
  | .resume t => s.csWsem.Allowed (.resume t)
  | .write t => t ∈ s.senders ∧ s.polled = none
  | .writepolled _ => s.polled = none
  | .poll => s.polled ≠ none ∧ s.ls.active = true
  | .irq => s.polled = none
  | .start _ => 0 < s.starts
  | .finish => s.ls.sending ≠ none

/-- A section of some thread, handler or device. -/
def Step [DecidableEq T] (s : Con T) (ev : Option UInt8) (s' : Con T) : Prop :=
  ∃ op, s.Allowed op ∧ s.exec op = .ok (ev, s')

/-! ## The permit -/

/-- A character is in the device, or its end has not been noticed. -/
def writing (s : Con T) : Bool :=
  s.ls.lsWbusy || s.polled matches some (.own _)

end Con

/-- The device between a write of its register and the notice of the end. -/
structure Lser.Ok (writing : Bool) (ls : Lser) : Prop where
  lost : ls.lost = []
  sending : (ls.sending.isSome ^^ ls.active) = writing
  idle : writing = false → ls.sending = none

namespace Lser.Ok

variable {ls : Lser} {w : Bool}

theorem active_eq_false (h : Ok false ls) : ls.active = false := by
  simpa [h.idle rfl] using h.sending

/-- A character that finds the device idle is on the line. -/
theorem writeChar (ls : Lser) (ch : UInt8) (hl : ls.lost = []) (hs : ls.sending = none)
    (ha : ls.active = false) :
    Ok true (ls.writeChar ch) ∧ (ls.writeChar ch).line = ch :: ls.line ∧
      (ls.writeChar ch).lsWbusy = ls.lsWbusy ∧ (ls.writeChar ch).enable = ls.enable := by
  have heq : ls.writeChar ch = { ls with sending := some ch } := by rw [Lser.writeChar, hs]
  rw [heq]
  exact ⟨⟨hl, by simp [ha], by simp⟩, by simp [Lser.line, hs], rfl, rfl⟩

theorem eq_none_of_active (h : Ok w ls) (ha : ls.active = true) : ls.sending = none := by
  cases w with
  | false => exact h.idle rfl
  | true => simpa [ha] using h.sending

theorem finish (h : Ok w ls) (hs : ls.sending ≠ none) : Ok w ls.finish := by
  cases w with
  | false => exact absurd (h.idle rfl) hs
  | true => exact ⟨h.lost, by simp [Lser.finish], by simp⟩

end Lser.Ok

namespace Con

variable {s s' : Con T} {written : List UInt8}

/-- There is one permit, and the device is as the driver takes it to be. -/
structure Inv (written : List UInt8) (s : Con T) : Prop where
  sem : ∃ tr, Sem.Inv 1 tr s.csWsem
  one : s.csWsem.semCount + s.senders.length + s.ls.lsWbusy.toNat + s.starts = 1
  ok : s.ls.Ok s.writing
  pending : ∀ b, s.polled = some (.own b) → b = s.ls.lsWbusy
  before : ∀ ch, s.polled = some (.before ch) → s.ls.lsWbusy = true
  enable : s.polled ≠ some (.own false) → s.ls.enable = true
  line : s.ls.line = written

theorem Inv.took (hi : Inv written s) {q : Sem T} (hq : q.semCount = s.csWsem.semCount) (t : T)
    (hs : ∀ r, q.loop t = .ok r → ∃ tr, Sem.Inv 1 tr r.2) :
    Meets (fun _ => False) (fun r => Inv (r.1.toList ++ written) r.2)
      (q.loop t >>= fun r => .ok (none, s.took t r)) := by
  have hloop := Sem.loop_eq q t
  have hone := hi.one
  rw [hloop, ok_bind]
  refine { hi with sem := hs _ hloop, one := ?_ }
  split_ifs with h0
  · simpa [Con.took, hq] using hone
  · simp only [Con.took, List.length_cons]
    omega

/-- The handler finds the end of a transmission that `lser_write` began. -/
theorem Inv.of_active (hi : Inv written s) (hfree : s.polled = none) (hact : s.ls.active = true) :
    s.ls.sending = none ∧ s.ls.lsWbusy = true := by
  have hidle := hi.ok.eq_none_of_active hact
  exact ⟨hidle, by simpa [writing, hfree, hact, hidle] using hi.ok.sending.symm⟩

theorem Inv.lserWrite [DecidableEq T] (hi : Inv written s) {t : T} (ht : t ∈ s.senders)
    (hfree : s.polled = none) :
    Meets (fun _ => False) (fun r => Inv (r.1.toList ++ written) r.2) (s.lserWrite t) := by
  have hone := hi.one
  have hlen := List.length_pos_of_mem ht
  have hzero : s.ls.lsWbusy.toNat = 0 := by omega
  have hbusy := Bool.toNat_eq_zero.mp hzero
  have hok := hi.ok
  simp only [writing, hbusy, hfree, Bool.or_self] at hok
  obtain ⟨hok', hline, hw, he⟩ := Lser.Ok.writeChar { s.ls with lsWbusy := true } (s.ch t)
    hok.lost (hok.idle rfl) hok.active_eq_false
  rw [Con.lserWrite, if_neg (by simp [hbusy])]
  refine ⟨hi.sem, ?_, by simpa [writing, hw] using hok', by simp [hfree], by simp [hfree],
    fun _ => he.trans (hi.enable (by simp [hfree])), hline.trans (congrArg _ hi.line)⟩
  simp only [hw, List.length_erase_of_mem ht, Bool.toNat_true]
  omega

/-- `lser_writepolled` sends its character. -/
theorem Inv.send (hi : Inv written s) (hidle : s.ls.sending = none) {b : Bool}
    (hb : b = s.ls.lsWbusy) (ch : UInt8) : Inv (ch :: written)
      { s with ls := (s.ls.writeWirq b b).writeChar ch, polled := some (.own b) } := by
  obtain ⟨hok, hline, hw, he⟩ := Lser.Ok.writeChar (s.ls.writeWirq b b) ch hi.ok.lost hidle rfl
  exact ⟨hi.sem, hw ▸ hi.one, by simpa [writing] using hok,
    by rintro _ ⟨⟩; exact hb.trans hw.symm, by simp,
    fun h => he.trans (by simpa [Lser.writeWirq] using h),
    hline.trans (congrArg _ hi.line)⟩

theorem Inv.lserWritepolled (hi : Inv written s) (hfree : s.polled = none) (ch : UInt8) :
    Inv ((s.lserWritepolled ch).1.toList ++ written) (s.lserWritepolled ch).2 := by
  rw [Con.lserWritepolled]
  split_ifs with hbusy
  · exact ⟨hi.sem, hi.one, by simpa [writing, hbusy] using hi.ok, by simp, fun _ _ => hbusy,
      fun _ => hi.enable (by simp [hfree]), hi.line⟩
  · have hidle := hi.ok.idle (by simp [writing, hbusy, hfree])
    exact hi.send hidle (Bool.eq_false_of_not_eq_true hbusy).symm ch

theorem Inv.polledOn (hi : Inv written s) (hact : s.ls.active = true) :
    Inv (s.polledOn.1.toList ++ written) s.polledOn.2 := by
  have hok := hi.ok
  have hidle := hok.eq_none_of_active hact
  rw [Con.polledOn]
  split
  next ch hp => exact hi.send hidle (hi.before ch hp).symm ch
  next b hp =>
    have hb := hi.pending b hp
    cases b with
    | false =>
      refine ⟨hi.sem, hi.one, ⟨hok.lost, ?_, fun _ => hidle⟩, by simp, by simp, fun _ => rfl,
        hi.line⟩
      simp [writing, Lser.writeWirq, hidle, ← hb]
    | true =>
      exact ⟨hi.sem, hi.one, by simpa [writing, ← hb] using hok, by simp, by simp,
        fun _ => hi.enable (by simp [hp]), hi.line⟩
  next => exact hi

theorem Inv.lserIrq (hi : Inv written s) (hfree : s.polled = none) : Inv written s.lserIrq := by
  have hone := hi.one
  rw [Con.lserIrq]
  split_ifs with hact
  · obtain ⟨hidle, hbusy⟩ := hi.of_active hfree hact
    refine ⟨hi.sem, ?_, ⟨hi.ok.lost, ?_, fun _ => hidle⟩, by simp [hfree], by simp [hfree],
      fun _ => rfl, hi.line⟩
    · rw [hbusy, Bool.toNat_true] at hone
      simp only [Lser.writeWirq, Bool.toNat_false]
      omega
    · simp [writing, Lser.writeWirq, hidle, hfree]
  · exact hi

/-- Every section can run, and keeps the invariant. -/
theorem Inv.exec [DecidableEq T] (hi : Inv written s) {op : ConOp T} (hal : s.Allowed op) :
    Meets (fun _ => False) (fun r => Inv (r.1.toList ++ written) r.2) (s.exec op) := by
  obtain ⟨tr, hsem⟩ := hi.sem
  have hone := hi.one
  cases op with
  | putchIntr t ch =>
    have hi' : Inv written { s with ch := update s.ch t ch } := { hi with }
    exact hi'.took rfl t fun r hr => ⟨_, hsem.step ⟨.p t, hal.2, hr⟩⟩
  | resume t =>
    exact hi.took (q := { s.csWsem with woken := s.csWsem.woken.erase t }) rfl t
      fun r hr => ⟨_, hsem.step ⟨.resume t, hal, hr⟩⟩
  | write t => exact hi.lserWrite hal.1 hal.2
  | writepolled ch => exact hi.lserWritepolled hal ch
  | poll => exact hi.polledOn hal.2
  | irq => exact hi.lserIrq hal
  | start t =>
    obtain ⟨r, hr, hc, -⟩ := s.csWsem.v_eq_ok (by omega) t
    rw [Con.exec, hr, ok_bind]
    refine { hi with sem := ⟨_, hsem.v hr⟩, one := ?_ }
    have hpos : 0 < s.starts := hal
    simp only [hc]
    omega
  | finish =>
    exact { hi with
      ok := hi.ok.finish hal
      line := by simpa [Lser.line, Lser.finish] using hi.line }

theorem run_inv [DecidableEq T] {tr : List (Option UInt8)} (hr : Run Step config tr s) :
    Inv tr.reduceOption s := by
  refine hr.trace_induct (I := fun tr s => Inv tr.reduceOption s) ?_ ?_
  · exact ⟨⟨[], .create (by decide)⟩, rfl, ⟨rfl, rfl, fun _ => rfl⟩, by simp [config],
      by simp [config], fun _ => rfl, rfl⟩
  · rintro tr s ev s' - hi ⟨op, hal, h⟩
    have := (hi.exec hal).of_ok h
    cases ev <;> simpa using this

/-! ## The end of the output -/

/-- The steps that are not a new call; the handler runs for a reason. -/
def Moves (s : Con T) : ConOp T → Prop
  | .putchIntr _ _ => False
  | .writepolled _ => False
  | .irq => s.Allowed .irq ∧ s.ls.enable = true ∧ s.ls.active = true
  | op => s.Allowed op

/-- What is left to do : a round of the permit for every thread in `putch_intr`, and the place where
the permit is now. -/
def work (s : Con T) : ℕ :=
  10 * (s.csWsem.semWchan.length + s.csWsem.woken.length + s.senders.length) +
    s.csWsem.woken.length + s.csWsem.semCount + 4 * s.starts + 5 * s.ls.lsWbusy.toNat +
    2 * s.ls.sending.isSome.toNat + s.ls.active.toNat +
    match s.polled with
    | none => 0
    | some (.own _) => 2
    | some (.before _) => 4

theorem work_lt [DecidableEq T] (hi : Inv written s) {op : ConOp T} {ev : Option UInt8}
    (hm : s.Moves op) (h : s.exec op = .ok (ev, s')) : s'.work < s.work := by
  have hone := hi.one
  cases op with
  | putchIntr t ch => exact hm.elim
  | writepolled ch => exact hm.elim
  | resume t =>
    have hmem : t ∈ s.csWsem.woken := hm
    have hlen := List.length_pos_of_mem hmem
    rw [exec, Sem.exec, Sem.loop_eq, ok_bind] at h
    split_ifs at h with h0 <;> cases h <;>
      simp only [work, took, threadlistAddtail, List.length_append, List.length_cons,
        List.length_nil, List.length_erase_of_mem hmem]
    · omega
    · simp only at h0
      omega
  | write t =>
    have hlen := List.length_pos_of_mem hm.1
    rw [exec, lserWrite] at h
    split_ifs at h with hbusy
    have hidle : s.ls.sending = none := hi.ok.idle (by simp [writing, hbusy, hm.2])
    cases h
    simp only [work, Lser.writeChar, hidle, List.length_erase_of_mem hm.1, hm.2]
    simp [hbusy]
    omega
  | poll =>
    obtain ⟨hpol, hact⟩ := hm
    have hidle := hi.ok.eq_none_of_active hact
    rw [exec, polledOn] at h
    split at h <;> cases h
    · simp [work, Lser.writeChar, Lser.writeWirq, *]
    · split_ifs <;> simp [work, Lser.writeWirq, *]
      omega
    · exact absurd ‹_› hpol
  | irq =>
    obtain ⟨hfree, -, hact⟩ := hm
    obtain ⟨hidle, hbusy⟩ := hi.of_active hfree hact
    rw [exec, lserIrq, if_pos hact] at h
    cases h
    simp [work, Lser.writeWirq, *]
    omega
  | start t =>
    have hpos : 0 < s.starts := hm
    obtain ⟨r, hr, hc, hsum, hwoken⟩ := s.csWsem.v_eq_ok (by omega) t
    rw [exec, hr, ok_bind] at h
    cases h
    simp only [work, hc]
    omega
  | finish =>
    cases h
    obtain ⟨ch, hch⟩ := Option.ne_none_iff_exists'.mp hm
    simp [work, Lser.finish, hch]
    omega

end Con

/-- In every run of any number of threads, handlers and polling writers, each section that can run
does so without a panic or a failed assertion. The device never loses a character : those it has
sent, and the one it is sending, are exactly those written to it, in their order. -/
theorem console_output [DecidableEq T] {tr : List (Option UInt8)} {s : Con T}
    (hr : Run Con.Step Con.config tr s) :
    (∀ op, s.Allowed op → ∃ r, s.exec op = .ok r) ∧ s.ls.lost = [] ∧
      s.ls.line = tr.reduceOption := by
  have hi := Con.run_inv hr
  exact ⟨fun op hal => (hi.exec hal).exists_ok, hi.ok.lost, hi.line⟩

/-- The second of two threads waits until the first character is sent. -/
theorem console_output_two : ∃ s : Con ℕ, Run Con.Step Con.config
      [some 66, none, none, none, none, none, some 65, none] s ∧ s.ls.line = [66, 65] :=
  have hr := Run.start.snoc
      ⟨.putchIntr 1 65, ⟨List.not_mem_nil, List.not_mem_nil, List.not_mem_nil⟩, rfl⟩
    |>.snoc ⟨.write 1, ⟨List.mem_cons_self, rfl⟩, rfl⟩
    |>.snoc ⟨.putchIntr 2 66, ⟨List.not_mem_nil, List.not_mem_nil, List.not_mem_nil⟩, rfl⟩
    |>.snoc ⟨.finish, nofun, rfl⟩ |>.snoc ⟨.irq, rfl, rfl⟩ |>.snoc ⟨.start 1, Nat.one_pos, rfl⟩
    |>.snoc ⟨.resume 2, List.mem_cons_self, rfl⟩
    |>.snoc ⟨.write 2, ⟨List.mem_cons_self, rfl⟩, rfl⟩
  ⟨_, hr, (console_output hr).2.2⟩

/-- Output comes to its end : in every reachable state each step that is not a new call leaves
less to do, and where there is no such step, no thread is left in `putch_intr`, no writer polls
and the device is idle. -/
theorem console_drains [DecidableEq T] [Nonempty T] {tr : List (Option UInt8)} {s : Con T}
    (hr : Run Con.Step Con.config tr s) :
    (∀ op ev s', s.Moves op → s.exec op = .ok (ev, s') → s'.work < s.work) ∧
      ((∀ op, ¬ s.Moves op) → s.csWsem.semWchan = [] ∧ s.csWsem.woken = [] ∧ s.senders = [] ∧
        s.polled = none ∧ s.ls.sending = none) := by
  have hi := Con.run_inv hr
  refine ⟨fun op ev s' hm h => Con.work_lt hi hm h, fun hstop => ?_⟩
  obtain ⟨t₀⟩ := ‹Nonempty T›
  obtain ⟨trs, hsem⟩ := hi.sem
  have hone := hi.one
  have hsending : s.ls.sending = none := by_contra fun h => hstop .finish h
  have hactive : s.writing = true → s.ls.active = true := fun hw => by
    simpa [hsending, hw] using hi.ok.sending
  have hpolled : s.polled = none := by
    by_contra h
    refine hstop .poll ⟨h, hactive ?_⟩
    obtain ⟨p, hp⟩ := Option.ne_none_iff_exists'.mp h
    cases p with
    | before ch => simp [Con.writing, hi.before ch hp]
    | own b => simp [Con.writing, hp]
  have hwoken : s.csWsem.woken = [] :=
    List.eq_nil_iff_forall_not_mem.mpr fun t ht => hstop (.resume t) ht
  have hsenders : s.senders = [] :=
    List.eq_nil_iff_forall_not_mem.mpr fun t ht => hstop (.write t) ⟨ht, hpolled⟩
  have hstarts : s.starts = 0 := by_contra fun h => hstop (.start t₀) (Nat.pos_of_ne_zero h)
  have hbusy : s.ls.lsWbusy = false := by
    by_contra h
    exact hstop .irq ⟨hpolled, hi.enable (by simp [hpolled]), hactive (by simp [Con.writing, h])⟩
  refine ⟨by_contra fun hne => ?_, hwoken, hsenders, hpolled, hsending⟩
  -- the permit is in the semaphore, and a thread on the channel would have been woken for it
  have := hsem.matched hne
  simp only [hwoken, hsenders, hstarts, hbusy, List.length_nil, Bool.toNat_false] at hone this
  omega

theorem console_drains_one : ∃ (tr : List (Option UInt8)) (s : Con ℕ),
    Run Con.Step Con.config tr s ∧ s.Moves .finish ∧
      ∀ ev s', s.exec .finish = .ok (ev, s') → s'.work < s.work :=
  have hr := Run.start.snoc
    ⟨.writepolled 65, rfl, rfl⟩
  ⟨_, _, hr, nofun, fun ev s' => (console_drains hr).1 .finish ev s' nofun⟩

end OS161
