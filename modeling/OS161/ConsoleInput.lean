import OS161.Console

/-!
# Console input

`con_input` of `dev/generic/console.c` puts the characters that arrive into a ring of 32 slots,
and a thread takes them out (`getch_intr`). No lock protects the ring : the handler moves
`cs_gotchars_head`, the reader moves `cs_gotchars_tail`, and `cs_rsem` counts the characters. Each
access to the ring is a step of its own. There is one reader; `con_userlock_read` is there to keep
others out.

`ConIn.Inv` relates the ring to the queue of the characters that were accepted and not yet
returned (`ConIn.run_inv`); from it follows `console_input`.
-/

namespace OS161

open Function

/-- Where the handler is in `con_input`. -/
inductive Inputting
  | idle
  | store (ch : UInt8) (nexthead : ℕ)
  | advance (ch : UInt8) (nexthead : ℕ)
  | post

/-- Where the reader is in `getch_intr`. -/
inductive Getting
  | idle
  | waiting
  | permit
  | fetched (ret : UInt8)

/-- The reading side of `struct con_softc`. -/
structure ConIn where
  csGotchars : ℕ → UInt8
  csGotcharsHead : ℕ
  csGotcharsTail : ℕ
  csRsem : Sem Unit
  handler : Inputting
  reader : Getting

/-- What became of a character. -/
inductive InEvent
  | quiet
  | dropped (ch : UInt8)
  | accepted (ch : UInt8)
  | returned (ch : UInt8)

namespace ConIn

/-- `config_con`. -/
def config : ConIn :=
  ⟨fun _ => 0, 0, 0, semCreate 0, .idle, .idle⟩

/-- The accesses that can come next. -/
inductive Op
  | input (ch : UInt8)
  | handler
  | getch
  | resume
  | reader

/-- The reader after a section of `P`. -/
def took (s : ConIn) (r : SemEvent Unit × Sem Unit) : ConIn :=
  { s with
    csRsem := r.2
    reader := match r.1 with
      | .acquired _ => .permit
      | _ => .waiting }

/-- One access of the handler or of the reader. -/
def exec (s : ConIn) : Op → Except Halt (InEvent × ConIn)
  | .input ch =>
    let nexthead := (s.csGotcharsHead + 1) % 32
    if nexthead = s.csGotcharsTail then .ok (.dropped ch, s)
    else .ok (.quiet, { s with handler := .store ch nexthead })
  | .handler =>
    match s.handler with
    | .idle => .ok (.quiet, s)
    | .store ch nexthead => .ok (.quiet, { s with
        csGotchars := update s.csGotchars s.csGotcharsHead ch
        handler := .advance ch nexthead })
    | .advance ch nexthead => .ok (.accepted ch, { s with
        csGotcharsHead := nexthead
        handler := .post })
    | .post => do
      let r ← s.csRsem.v ()
      .ok (.quiet, { s with csRsem := r.2, handler := .idle })
  | .getch => do
    let r ← s.csRsem.exec (.p ())
    .ok (.quiet, s.took r)
  | .resume => do
    let r ← s.csRsem.exec (.resume ())
    .ok (.quiet, s.took r)
  | .reader =>
    match s.reader with
    | .permit => .ok (.quiet, { s with reader := .fetched (s.csGotchars s.csGotcharsTail) })
    | .fetched ret => .ok (.returned ret, { s with
        csGotcharsTail := (s.csGotcharsTail + 1) % 32
        reader := .idle })
    | _ => .ok (.quiet, s)

/-- The handler takes one character after the other, and the reader is inside `P` or not. -/
def Allowed (s : ConIn) : Op → Prop
  | .input _ => s.handler = .idle
  | .getch => s.reader = .idle
  | .resume => s.reader = .waiting ∧ () ∈ s.csRsem.woken
  | _ => True

/-- An access of one of the two. -/
def Step (s : ConIn) (ev : InEvent) (s' : ConIn) : Prop :=
  ∃ op, s.Allowed op ∧ s.exec op = .ok (ev, s')

end ConIn

namespace InEvent

/-- The characters that the ring has accepted, the oldest first. -/
def accepts (tr : List InEvent) : List UInt8 :=
  (tr.filterMap fun | .accepted ch => some ch | _ => none).reverse

/-- The characters that `getch` has returned, the oldest first. -/
def returns (tr : List InEvent) : List UInt8 :=
  (tr.filterMap fun | .returned ch => some ch | _ => none).reverse

end InEvent

open InEvent

/-! ## The queue in the ring -/

namespace ConIn

/-- The ring holds what was accepted and not yet returned. For each of these characters there is a
permit, in the semaphore or taken by the reader, or the handler is about to give it. -/
structure Inv (acc ret : List UInt8) (s : ConIn) : Prop where
  sem : ∃ trs, Sem.Inv 0 trs s.csRsem
  head : s.csGotcharsHead = acc.length % 32
  tail : s.csGotcharsTail = ret.length % 32
  slots : ∀ i ch, ret.length ≤ i → acc[i]? = some ch → s.csGotchars (i % 32) = ch
  permits : s.csRsem.semCount +
      (match s.reader with | .permit => 1 | .fetched _ => 1 | _ => 0) +
      (match s.handler with | .post => 1 | _ => 0) + ret.length = acc.length
  room : match s.handler with
    | .store _ n => n = (s.csGotcharsHead + 1) % 32 ∧ acc.length < ret.length + 31
    | .advance ch n => n = (s.csGotcharsHead + 1) % 32 ∧ acc.length < ret.length + 31 ∧
        s.csGotchars s.csGotcharsHead = ch
    | _ => acc.length ≤ ret.length + 31
  fetched : ∀ ch, s.reader = .fetched ch → acc[ret.length]? = some ch
  order : ret = acc.take ret.length

/-- What an event adds. -/
def Inv.After (acc ret : List UInt8) (s : ConIn) : InEvent → Prop
  | .quiet => Inv acc ret s
  | .dropped _ => Inv acc ret s ∧ acc.length = ret.length + 31
  | .accepted ch => Inv (acc ++ [ch]) ret s
  | .returned ch => Inv acc (ret ++ [ch]) s

variable {s : ConIn} {acc ret : List UInt8}

theorem Inv.took (hi : Inv acc ret s) {c : Sem Unit} (hc : c.semCount = s.csRsem.semCount)
    (hr : s.reader = .idle ∨ s.reader = .waiting)
    (hs : ∀ r, c.loop () = .ok r → ∃ trs, Sem.Inv 0 trs r.2) :
    Meets (fun _ => False) (fun r => Inv.After acc ret r.2 r.1)
      (c.loop () >>= fun r => .ok (.quiet, s.took r)) := by
  have hp := hi.permits
  have hloop := Sem.loop_eq c ()
  rw [hloop, ok_bind]
  refine { hi with sem := hs _ hloop, permits := ?_, fetched := ?_ }
  · rcases hr with hr | hr <;> simp only [hr] at hp <;> split_ifs <;> dsimp only [ConIn.took] <;>
      omega
  · split_ifs <;> nofun

/-- Every step can run, and keeps the invariant. -/
theorem Inv.exec (hi : Inv acc ret s) {op : Op} (hal : s.Allowed op) :
    Meets (fun _ => False) (fun r => Inv.After acc ret r.2 r.1) (s.exec op) := by
  obtain ⟨trs, hsem⟩ := hi.sem
  have hhead := hi.head
  have htail := hi.tail
  have hroom := hi.room
  have hp := hi.permits
  cases op with
  | input ch =>
    have hidle : s.handler = .idle := hal
    simp only [hidle] at hroom hp
    simp only [ConIn.exec]
    split_ifs with hfull
    · exact ⟨hi, by omega⟩
    · exact { hi with permits := hp, room := ⟨rfl, by omega⟩ }
  | handler =>
    simp only [ConIn.exec]
    cases hh : s.handler with
    | idle => exact hi
    | store ch n =>
      simp only [hh] at hroom hp
      refine { hi with
        slots := fun i c hle hc => ?_
        permits := hp
        room := ⟨hroom.1, hroom.2, update_self _ _ _⟩ }
      have hlt := (List.getElem?_eq_some_iff.mp hc).1
      exact (update_of_ne (by omega) _ _).trans (hi.slots i c hle hc)
    | advance ch n =>
      simp only [hh] at hroom hp
      obtain ⟨rfl, hlt, hch⟩ := hroom
      have hlen : (acc ++ [ch]).length = acc.length + 1 := List.length_append
      refine ⟨hi.sem, ?_, hi.tail, fun i c hle hc => ?_, ?_, ?_, fun c hc => ?_, ?_⟩
      · dsimp only
        omega
      · have hbound := hlen ▸ (List.getElem?_eq_some_iff.mp hc).1
        rcases Nat.lt_succ_iff_lt_or_eq.mp hbound with hold | rfl
        · exact hi.slots i c hle (List.getElem?_append_left hold ▸ hc)
        · rw [List.getElem?_concat_length] at hc
          rw [← hhead, hch, Option.some.inj hc]
      · dsimp only
        omega
      · dsimp only
        omega
      · have h0 := hi.fetched c hc
        rwa [List.getElem?_append_left (List.getElem?_eq_some_iff.mp h0).1]
      · rw [List.take_append_of_le_length (by omega)]
        exact hi.order
    | post =>
      simp only [hh] at hroom hp
      obtain ⟨r, hr, hc, -⟩ := s.csRsem.v_eq_ok (by omega) ()
      rw [hr, ok_bind]
      exact { hi with
        sem := ⟨_, hsem.v hr⟩
        permits := by dsimp only; omega
        room := hroom }
  | getch =>
    exact hi.took rfl (.inl hal) fun r hr => ⟨_, .of_loop hsem.lt hsem.count
      (fun hne => (hsem.matched hne).trans (Nat.le_succ _)) hr⟩
  | resume =>
    exact hi.took (c := { s.csRsem with woken := s.csRsem.woken.erase () }) rfl (.inr hal.1)
      fun r hr => ⟨_, hsem.step ⟨.resume (), hal.2, hr⟩⟩
  | reader =>
    simp only [ConIn.exec]
    cases hh : s.reader with
    | permit =>
      simp only [hh] at hp
      have hlt : ret.length < acc.length := by omega
      refine { hi with permits := hp, fetched := ?_ }
      rintro _ ⟨⟩
      rw [htail, hi.slots _ _ le_rfl (List.getElem?_eq_getElem hlt)]
      exact List.getElem?_eq_getElem hlt
    | fetched ch =>
      simp only [hh] at hp
      have hlen : (ret ++ [ch]).length = ret.length + 1 := List.length_append
      refine ⟨hi.sem, hi.head, ?_, fun i c hle => hi.slots i c (by omega), ?_, ?_, by simp, ?_⟩
      · dsimp only
        omega
      · dsimp only
        omega
      · cases hn : s.handler <;> simp only [hn] at hroom ⊢ <;> grind
      · rw [hlen, List.take_add_one, ← hi.order, hi.fetched ch hh]
        rfl
    | _ => exact hi

theorem run_inv {tr : List InEvent} (hr : Run Step config tr s) :
    Inv (accepts tr) (returns tr) s := by
  refine hr.trace_induct (I := fun tr s => Inv (accepts tr) (returns tr) s) ?_ ?_
  · exact ⟨⟨[], .create (by decide)⟩, rfl, rfl, nofun, rfl, Nat.zero_le _, nofun, rfl⟩
  · rintro tr s ev s' - hi ⟨op, hal, h⟩
    have hafter := (hi.exec hal).of_ok h
    cases ev with
    | quiet => exact hafter
    | dropped ch => exact hafter.1
    | accepted ch | returned ch => simpa [Inv.After, accepts, returns] using hafter

end ConIn

/-- In every interleaving of the handler and the reader no step fails, and `getch` returns the
characters that the ring accepts, in their order. At most 31 are pending; a character is dropped
only when 31 are, and a reader sleeps with no wake-up on its way only when none is or the handler
is about to post. -/
theorem console_input {tr : List InEvent} {s : ConIn} (hr : Run ConIn.Step ConIn.config tr s) :
    (∀ op, s.Allowed op → ∃ r, s.exec op = .ok r) ∧
      returns tr <+: accepts tr ∧ (accepts tr).length ≤ (returns tr).length + 31 ∧
      (∀ ch s', s.Step (.dropped ch) s' → (accepts tr).length = (returns tr).length + 31) ∧
      (s.csRsem.semWchan ≠ [] → s.csRsem.woken = [] → s.reader = .waiting →
        returns tr = accepts tr ∨ s.handler = .post) := by
  have hi := ConIn.run_inv hr
  obtain ⟨trs, hsem⟩ := hi.sem
  have hroom := hi.room
  have hp := hi.permits
  have hpre : returns tr <+: accepts tr := hi.order ▸ List.take_prefix _ _
  refine ⟨fun op hal => (hi.exec hal).exists_ok, hpre, ?_, ?_, fun hne hw hwait => ?_⟩
  · cases hn : s.handler <;> simp only [hn] at hroom <;> omega
  · rintro ch s' ⟨op, hal, h⟩
    exact ((hi.exec hal).of_ok h).2
  · have hnone := hsem.matched hne
    rw [hw, List.length_nil] at hnone
    rw [hwait] at hp
    refine or_iff_not_imp_right.mpr fun hpost => hpre.eq_of_length ?_
    cases hn : s.handler <;> simp only [hn] at hp hpost <;>
      first | omega | exact absurd trivial hpost

/-- Two characters arrive, and the first is returned. -/
theorem console_input_two : ∃ s : ConIn, Run ConIn.Step ConIn.config [.returned 65, .quiet, .quiet,
      .accepted 66, .quiet, .quiet, .quiet, .accepted 65, .quiet, .quiet] s ∧
    [65] <+: [(65 : UInt8), 66] :=
  have hr := Run.start.snoc ⟨.input 65, rfl, rfl⟩ |>.snoc ⟨.handler, trivial, rfl⟩
    |>.snoc ⟨.handler, trivial, rfl⟩ |>.snoc ⟨.handler, trivial, rfl⟩
    |>.snoc ⟨.input 66, rfl, rfl⟩ |>.snoc ⟨.handler, trivial, rfl⟩
    |>.snoc ⟨.handler, trivial, rfl⟩ |>.snoc ⟨.getch, rfl, rfl⟩
    |>.snoc ⟨.reader, trivial, rfl⟩ |>.snoc ⟨.reader, trivial, rfl⟩
  ⟨_, hr, (console_input hr).2.1⟩

end OS161
