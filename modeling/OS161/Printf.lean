import OS161.Basic
import OS161.Numerals
import OS161.Outcome

/-!
# `printf`

`__printf.c`, with the output function as a parameter, and `snprintf.c`. The format is taken
character by character, and a directive that is not finished keeps its state (`Pf`). Arguments are
typed as `va_arg` takes them (`PfArg`). `int` and `long` have 32 bits and `long long` has 64. Field
widths fit in an `int`, so that `spacing` is a natural number.

What is sent does not depend on where it is sent to. If the output function only looks at the text
(`Streams`), then a call with it is a call that collects the text (`fullText`), and the text sent at
once (`vprintf_over`). `vsnprintf` is such a call. There are as many places in the buffer of
`__pf_printnum` as a number has digits (`digitLoop_eq`), so that an integer conversion sends one
field (`printInteger_eq`).
-/

namespace OS161

open Numeral

/-! ## The state -/

/-- The `size` of a directive. -/
inductive PfSize
  | intsz
  | longsz
  | llongsz
  | sizetsz
  deriving DecidableEq, Repr

/-- An argument as `va_arg` takes it : 32 bits, 64 bits, or a string or `NULL`. -/
inductive PfArg
  | word (w : BitVec 32)
  | dword (w : BitVec 64)
  | str (s : Option (List UInt8))
  deriving DecidableEq, Repr

/-- Why a call does not return : an argument of the wrong type, a failed assertion, a write outside
a local buffer, or a division by zero. -/
inductive PfStop
  | badArg
  | assertion
  | overrun
  | divByZero
  deriving DecidableEq, Repr

/-- `PF`. `sign` is set for `-1`. -/
structure Pf (σ : Type) where
  clientdata : σ
  ap : List PfArg
  charcount : ℕ
  inPct : Bool
  size : PfSize
  num : ℕ
  sign : Bool
  spacing : ℕ
  rightspc : Bool
  fillchar : UInt8
  base : ℕ
  basePrefix : Bool
  altformat : Bool

/-- A character of the source. -/
def ascii (c : Char) : UInt8 :=
  c.toUInt8

/-- The bytes of a C string, which ends before the first zero. -/
def cstr (l : List UInt8) : List UInt8 :=
  l.takeWhile (· ≠ 0)

/-- `digits`. -/
def digitTable : List UInt8 :=
  "0123456789abcdef".toList.map ascii

/-- `NUMBER_BUF_SIZE`. -/
def numberBufSize : ℕ :=
  64 / 3 + 2

/-! ## The functions -/

section Functions

variable {σ : Type} (send : σ → List UInt8 → σ)

/-- `__pf_print`. -/
def pfPrint (pf : Pf σ) (txt : List UInt8) : Pf σ :=
  { pf with
    clientdata := send pf.clientdata txt
    charcount := word32 (pf.charcount + txt.length) }

/-- `__pf_endfield`. -/
def pfEndfield (pf : Pf σ) : Pf σ :=
  { pf with
    inPct := false
    size := .intsz
    num := 0
    sign := false
    spacing := 0
    rightspc := false
    fillchar := ascii ' '
    base := 0
    basePrefix := false
    altformat := false }

/-- `__pf_modifier`. -/
def pfModifier (pf : Pf σ) (ch : UInt8) : Except PfStop (Pf σ) :=
  if ch = ascii '#' then .ok { pf with altformat := true }
  else if ch = ascii '-' then .ok { pf with rightspc := true }
  else if ch = ascii 'l' then
    .ok { pf with size := if pf.size = .longsz then .llongsz else .longsz }
  else if ch = ascii 'z' then .ok { pf with size := .sizetsz }
  else if ch = ascii '0' then
    if 0 < pf.spacing then .ok { pf with spacing := pf.spacing * 10 }
    else .ok { pf with fillchar := ascii '0' }
  else if ascii '0' < ch ∧ ch ≤ ascii '9' then
    .ok { pf with spacing := pf.spacing * 10 + (ch - ascii '0').toNat }
  else .error .assertion

/-- `va_arg` for the signed type of a size. -/
def vaSigned : PfSize → List PfArg → Except PfStop (ℤ × List PfArg)
  | .llongsz, .dword w :: ap => .ok (w.toInt, ap)
  | .llongsz, _ => .error .badArg
  | _, .word w :: ap => .ok (w.toInt, ap)
  | _, _ => .error .badArg

/-- `va_arg` for the unsigned type of a size. -/
def vaUnsigned : PfSize → List PfArg → Except PfStop (ℕ × List PfArg)
  | .llongsz, .dword w :: ap => .ok (w.toNat, ap)
  | .llongsz, _ => .error .badArg
  | _, .word w :: ap => .ok (w.toNat, ap)
  | _, _ => .error .badArg

/-- `va_arg` for a string. -/
def vaString : List PfArg → Except PfStop (Option (List UInt8) × List PfArg)
  | .str s :: ap => .ok (s, ap)
  | _ => .error .badArg

/-- `__pf_getnum`. The negation is that of 64 bits. -/
def pfGetnum (pf : Pf σ) (ch : UInt8) : Except PfStop (Pf σ) :=
  if ch = ascii 'p' then do
    let (num, ap) ← vaUnsigned .intsz pf.ap
    .ok { pf with num := num, ap := ap }
  else if ch = ascii 'd' then do
    let (signednum, ap) ← vaSigned pf.size pf.ap
    if signednum < 0 then
      .ok { pf with sign := true, num := (-signednum % 2 ^ 64).toNat, ap := ap }
    else .ok { pf with num := signednum.toNat, ap := ap }
  else do
    let (num, ap) ← vaUnsigned pf.size pf.ap
    .ok { pf with num := num, ap := ap }

/-- `__pf_setbase`. -/
def pfSetbase (pf : Pf σ) (ch : UInt8) : Pf σ :=
  { pf with
    base :=
      if ch = ascii 'd' ∨ ch = ascii 'u' then 10
      else if ch = ascii 'x' ∨ ch = ascii 'p' then 16
      else if ch = ascii 'o' then 8
      else pf.base
    basePrefix := if pf.altformat = true ∨ ch = ascii 'p' then true else pf.basePrefix }

/-- `__pf_fill`. -/
def pfFill (pf : Pf σ) : ℕ → Pf σ
  | 0 => pf
  | spc + 1 => pfFill (pfPrint send pf [pf.fillchar]) spc

/-- `__pf_printstuff`. -/
def pfPrintstuff (pf : Pf σ) (pre pre2 stuff : List UInt8) : Pf σ :=
  let len := pre.length + pre2.length + stuff.length
  let spc := if len < pf.spacing then pf.spacing - len else 0
  let pf :=
    if 0 < spc ∧ pf.rightspc = false ∧ pf.fillchar ≠ ascii '0' then pfFill send pf spc else pf
  let pf := pfPrint send pf pre
  let pf := pfPrint send pf pre2
  let pf :=
    if 0 < spc ∧ pf.rightspc = false ∧ pf.fillchar = ascii '0' then pfFill send pf spc else pf
  let pf := pfPrint send pf stuff
  if 0 < spc ∧ pf.rightspc = true then pfFill send pf spc else pf

/-- The loop of `__pf_printnum`, with the number of places that are left in the buffer and the text
from `x + 1` on. -/
def digitLoop (base : ℕ) : ℕ → ℕ → List UInt8 → Except PfStop (List UInt8)
  | 0, _, _ => .error .overrun
  | places + 1, xnum, text =>
    if base = 0 then .error .divByZero
    else
      let text := digitOf digitTable (xnum % base) :: text
      let xnum := xnum / base
      if 0 < xnum then digitLoop base places xnum text else .ok text

/-- The base prefix that `__pf_printnum` selects. -/
def bPrefix (basePrefix : Bool) (base : ℕ) : List UInt8 :=
  if basePrefix = true ∧ base = 16 then [ascii '0', ascii 'x']
  else if basePrefix = true ∧ base = 8 then [ascii '0']
  else []

/-- The sign prefix that `__pf_printnum` selects. -/
def sPrefix (sign : Bool) : List UInt8 :=
  if sign = true then [ascii '-'] else []

/-- `__pf_printnum`. One place of the buffer has the terminator. -/
def pfPrintnum (pf : Pf σ) : Except PfStop (Pf σ) := do
  let text ← digitLoop pf.base (numberBufSize - 1) pf.num []
  .ok (pfPrintstuff send pf (sPrefix pf.sign) (bPrefix pf.basePrefix pf.base) text)

/-- The characters between `%` and the type. -/
def pfModifiers : List UInt8 :=
  "#-lz0123456789".toList.map ascii

/-- The integer types. -/
def pfIntegers : List UInt8 :=
  "doupx".toList.map ascii

/-- `__pf_send`. -/
def pfSend (pf : Pf σ) (ch : UInt8) : Except PfStop (Pf σ) :=
  if ch = 0 then .error .assertion
  else if pf.inPct = false ∧ ch ≠ ascii '%' then .ok (pfPrint send pf [ch])
  else if pf.inPct = false then .ok { pf with inPct := true }
  else if ch ∈ pfModifiers then pfModifier pf ch
  else if ch ∈ pfIntegers then do
    let pf ← pfGetnum pf ch
    let pf ← pfPrintnum send (pfSetbase pf ch)
    .ok (pfEndfield pf)
  else if ch = ascii 's' then do
    let (str, ap) ← vaString pf.ap
    let str := cstr (str.getD ("(null)".toList.map ascii))
    .ok (pfEndfield (pfPrintstuff send { pf with ap := ap } [] [] str))
  else if ch = ascii 'c' then do
    let (w, ap) ← vaUnsigned .intsz pf.ap
    .ok (pfEndfield (pfPrintstuff send { pf with ap := ap } [] [] (cstr [UInt8.ofNat w])))
  else .ok (pfEndfield (pfPrintstuff send pf [] [] [ch]))

/-- The loop of `__vprintf`. -/
def vprintfLoop (pf : Pf σ) : List UInt8 → Except PfStop (Pf σ)
  | [] => .ok pf
  | ch :: format => do
    let pf ← pfSend send pf ch
    vprintfLoop pf format

/-- The state `__vprintf` starts with. -/
def pfStart (clientdata : σ) (ap : List PfArg) : Pf σ :=
  pfEndfield ⟨clientdata, ap, 0, false, .intsz, 0, false, 0, false, 0, 0, false, false⟩

/-- `__vprintf`, with what the output function has made of it; the count is an `int`. -/
def vprintf (clientdata : σ) (format : List UInt8) (ap : List PfArg) : Except PfStop (ℤ × σ) := do
  let pf ← vprintfLoop send (pfStart clientdata ap) (cstr format)
  .ok ((pf.charcount : ℤ).bmod (2 ^ 32), pf.clientdata)

end Functions

/-- The output function that keeps the text. -/
def collect (out txt : List UInt8) : List UInt8 :=
  out ++ txt

/-- The full expansion of a format : all that is sent. -/
def fullText (format : List UInt8) (ap : List PfArg) : Except PfStop (List UInt8) := do
  let (_, text) ← vprintf collect [] format ap
  .ok text

/-! ## `snprintf.c` -/

/-- `SNP`, with the memory. -/
structure Snp where
  mem : ℕ → UInt8
  buf : ℕ
  buflen : ℕ
  bufpos : ℕ

/-- `__snprintf_send` for one character. -/
def Snp.put (snp : Snp) (c : UInt8) : Snp :=
  if snp.bufpos < snp.buflen then
    { snp with mem := Function.update snp.mem (snp.buf + snp.bufpos) c, bufpos := snp.bufpos + 1 }
  else snp

/-- `__snprintf_send`. -/
def snprintfSend (snp : Snp) (data : List UInt8) : Snp :=
  data.foldl Snp.put snp

/-- `vsnprintf`. -/
def vsnprintf (mem : ℕ → UInt8) (buf len : ℕ) (fmt : List UInt8) (ap : List PfArg) :
    Except PfStop (ℤ × (ℕ → UInt8)) := do
  let (chars, snp) ← vprintf snprintfSend ⟨mem, buf, if len = 0 then 0 else len - 1, 0⟩ fmt ap
  .ok (chars, if 0 < len then Function.update snp.mem (buf + snp.bufpos) 0 else snp.mem)

/-! ## Printing is streaming -/

/-- The output function looks at the text only, not at how it is cut into calls. -/
structure Streams {σ : Type} (send : σ → List UInt8 → σ) : Prop where
  nil : ∀ s, send s [] = s
  append : ∀ s a b, send (send s a) b = send s (a ++ b)

theorem collect_streams : Streams collect :=
  ⟨List.append_nil, List.append_assoc⟩

theorem snprintfSend_streams : Streams snprintfSend :=
  ⟨fun _ => rfl, fun _ _ _ => List.foldl_append.symm⟩

/-- The text of a field : the padding is on the right, or between prefixes and text if it is of
zeros, or on the left. -/
def fieldText (spacing : ℕ) (rightspc : Bool) (fillchar : UInt8) (pre pre2 stuff : List UInt8) :
    List UInt8 :=
  let pad := List.replicate (spacing - (pre.length + pre2.length + stuff.length)) fillchar
  if rightspc = true then pre ++ pre2 ++ stuff ++ pad
  else if fillchar = ascii '0' then pre ++ pre2 ++ pad ++ stuff
  else pad ++ pre ++ pre2 ++ stuff

section Stream

variable {σ : Type} {send : σ → List UInt8 → σ} {pf pf' : Pf σ} {ch : UInt8}

theorem pfPrint_pfPrint (hs : Streams send) (a b : List UInt8) :
    pfPrint send (pfPrint send pf a) b = pfPrint send pf (a ++ b) := by
  unfold pfPrint
  dsimp only
  rw [hs.append, List.length_append]
  congr 1
  unfold word32
  omega

@[simp] theorem pfPrint_rightspc (txt : List UInt8) :
    (pfPrint send pf txt).rightspc = pf.rightspc :=
  rfl

@[simp] theorem pfPrint_fillchar (txt : List UInt8) :
    (pfPrint send pf txt).fillchar = pf.fillchar :=
  rfl

theorem pfFill_succ (hs : Streams send) (spc : ℕ) : pfFill send pf (spc + 1) =
    pfPrint send pf (List.replicate (spc + 1) pf.fillchar) := by
  induction spc generalizing pf with
  | zero => rfl
  | succ spc ih =>
    rw [pfFill, ih, pfPrint_pfPrint hs]
    rfl

theorem pfFill_of_pos (hs : Streams send) {spc : ℕ} (h : 0 < spc) : pfFill send pf spc =
    pfPrint send pf (List.replicate spc pf.fillchar) := by
  obtain ⟨n, rfl⟩ := Nat.exists_eq_add_one_of_ne_zero h.ne'
  exact pfFill_succ hs n

/-- `__pf_printstuff` sends the text of the field. -/
theorem pfPrintstuff_eq (hs : Streams send) (pre pre2 stuff : List UInt8) :
    pfPrintstuff send pf pre pre2 stuff =
      pfPrint send pf (fieldText pf.spacing pf.rightspc pf.fillchar pre pre2 stuff) := by
  unfold pfPrintstuff fieldText
  dsimp only
  by_cases hlt : pre.length + pre2.length + stuff.length < pf.spacing
  · rw [if_pos hlt]
    have hpos := Nat.sub_pos_of_lt hlt
    cases hr : pf.rightspc with
    | true =>
      simp [hr, hpos, pfFill_of_pos hs hpos, pfPrint_pfPrint hs]
    | false =>
      by_cases hf : pf.fillchar = ascii '0'
      · simp [hr, hf, hpos, pfFill_of_pos hs hpos, pfPrint_pfPrint hs]
      · simp [hr, hf, hpos, pfFill_of_pos hs hpos, pfPrint_pfPrint hs]
  · rw [if_neg hlt, Nat.sub_eq_zero_of_le (not_lt.mp hlt)]
    simp [pfPrint_pfPrint hs]

end Stream

/-! ## Numbers -/

theorem digitTable_nodup : digitTable.Nodup := by
  decide

/-- The loop of `__pf_printnum` writes the numeral, if it has room for it. -/
theorem digitLoop_eq {base : ℕ} (hb : 1 < base) : ∀ (places n : ℕ) (text : List UInt8),
    (numeral digitTable base n).length ≤ places →
      digitLoop base places n text = .ok (numeral digitTable base n ++ text)
  | 0, n, text, h => absurd (List.length_eq_zero_iff.mp (Nat.le_zero.mp h)) numeral_ne_nil
  | places + 1, n, text, h => by
    rw [digitLoop, if_neg (by omega)]
    by_cases hn : base ≤ n
    · rw [numeral_of_le hb hn, List.length_append, List.length_singleton] at h
      rw [if_pos (Nat.div_pos hn (by omega)), digitLoop_eq hb places _ _ (by omega),
        numeral_of_le hb hn, List.append_assoc, List.singleton_append]
    · rw [Nat.div_eq_of_lt (not_le.mp hn), if_neg (lt_irrefl 0), numeral_of_lt (not_le.mp hn),
        Nat.mod_eq_of_lt (not_le.mp hn), List.singleton_append]

/-- The bases that `__pf_setbase` sets. -/
def PfBase (base : ℕ) : Prop :=
  base = 8 ∨ base = 10 ∨ base = 16

/-- There are places for 22 digits, which 64 bits have in base 8. -/
theorem length_numeral_places {base n : ℕ} (hb : PfBase base) (hn : n < 2 ^ 64) :
    (numeral digitTable base n).length ≤ numberBufSize - 1 := by
  have hbase : 1 < base ∧ 2 ^ 64 ≤ base ^ (numberBufSize - 1) := by
    rcases hb with rfl | rfl | rfl
    all_goals decide
  exact length_numeral_le hbase.1 (by decide) (hn.trans_le hbase.2)

section Numbers

variable {σ : Type} {send : σ → List UInt8 → σ} {pf pf' : Pf σ} {ch : UInt8}

theorem pfPrintnum_eq (hs : Streams send) (hb : PfBase pf.base) (hn : pf.num < 2 ^ 64) :
    pfPrintnum send pf = .ok (pfPrint send pf (fieldText pf.spacing pf.rightspc pf.fillchar
      (sPrefix pf.sign) (bPrefix pf.basePrefix pf.base) (numeral digitTable pf.base pf.num))) := by
  have hbase : 1 < pf.base := by
    rcases hb with h | h | h
    all_goals omega
  rw [pfPrintnum, digitLoop_eq hbase _ _ _ (length_numeral_places hb hn), ok_bind, List.append_nil,
    pfPrintstuff_eq hs]

theorem vaUnsigned_lt {size : PfSize} {ap ap' : List PfArg} {n : ℕ}
    (h : vaUnsigned size ap = .ok (n, ap')) : n < 2 ^ 64 := by
  unfold vaUnsigned at h
  split at h
  · cases h
    exact BitVec.isLt _
  · cases h
  · cases h
    exact (BitVec.isLt _).trans (by decide)
  · cases h

theorem vaSigned_natAbs {size : PfSize} {ap ap' : List PfArg} {z : ℤ}
    (h : vaSigned size ap = .ok (z, ap')) : -2 ^ 63 ≤ z ∧ z < 2 ^ 63 := by
  unfold vaSigned at h
  split at h
  · cases h
    exact ⟨BitVec.le_toInt _, BitVec.toInt_lt⟩
  · cases h
  · rename_i w _ _
    cases h
    have h1 := w.le_toInt
    have h2 := w.toInt_lt
    omega
  · cases h

theorem pfGetnum_num (h : pfGetnum pf ch = .ok pf') : pf'.num < 2 ^ 64 := by
  unfold pfGetnum at h
  split_ifs at h
  · obtain ⟨⟨n, ap⟩, hva, h⟩ := bind_eq_ok.mp h
    cases h
    exact vaUnsigned_lt hva
  · obtain ⟨⟨z, ap⟩, hva, h⟩ := bind_eq_ok.mp h
    have hz := vaSigned_natAbs hva
    dsimp only at h
    split_ifs at h
    · cases h
      dsimp only
      omega
    · cases h
      dsimp only
      omega
  · obtain ⟨⟨n, ap⟩, hva, h⟩ := bind_eq_ok.mp h
    cases h
    exact vaUnsigned_lt hva

theorem pfSetbase_base (hch : ch ∈ pfIntegers) : PfBase (pfSetbase pf ch).base := by
  have hcases : ch = ascii 'd' ∨ ch = ascii 'o' ∨ ch = ascii 'u' ∨ ch = ascii 'p' ∨
      ch = ascii 'x' := by
    simpa [pfIntegers] using hch
  rcases hcases with rfl | rfl | rfl | rfl | rfl
  · exact Or.inr (Or.inl rfl)
  · exact Or.inl rfl
  · exact Or.inr (Or.inl rfl)
  · exact Or.inr (Or.inr rfl)
  · exact Or.inr (Or.inr rfl)

/-- An integer conversion sends one field. -/
theorem printInteger_eq (hs : Streams send) (hch : ch ∈ pfIntegers) (h : pfGetnum pf ch = .ok pf') :
    pfPrintnum send (pfSetbase pf' ch) = .ok (pfPrint send (pfSetbase pf' ch)
      (fieldText pf'.spacing pf'.rightspc pf'.fillchar (sPrefix pf'.sign)
        (bPrefix (pfSetbase pf' ch).basePrefix (pfSetbase pf' ch).base)
        (numeral digitTable (pfSetbase pf' ch).base pf'.num))) := by
  have hnum := pfGetnum_num h
  exact pfPrintnum_eq hs (pfSetbase_base hch) hnum

end Numbers

/-! ## Collecting the text -/

section Over

variable {σ : Type} {send : σ → List UInt8 → σ} {s : σ} {pf pf' : Pf (List UInt8)} {ch : UInt8}

/-- The state of a call that has sent what another one has collected. -/
def Pf.over (send : σ → List UInt8 → σ) (s : σ) (pf : Pf (List UInt8)) : Pf σ :=
  ⟨send s pf.clientdata, pf.ap, pf.charcount, pf.inPct, pf.size, pf.num, pf.sign, pf.spacing,
    pf.rightspc, pf.fillchar, pf.base, pf.basePrefix, pf.altformat⟩

@[simp] theorem over_inPct : (pf.over send s).inPct = pf.inPct :=
  rfl

@[simp] theorem over_size : (pf.over send s).size = pf.size :=
  rfl

@[simp] theorem over_spacing : (pf.over send s).spacing = pf.spacing :=
  rfl

theorem pfPrint_over (hs : Streams send) (txt : List UInt8) :
    pfPrint send (pf.over send s) txt = (pfPrint collect pf txt).over send s := by
  unfold pfPrint Pf.over
  rw [hs.append]
  rfl

theorem pfPrintstuff_over (pf : Pf (List UInt8)) (hs : Streams send)
    (pre pre2 stuff : List UInt8) :
    pfPrintstuff send (pf.over send s) pre pre2 stuff =
      (pfPrintstuff collect pf pre pre2 stuff).over send s := by
  rw [pfPrintstuff_eq hs, pfPrintstuff_eq collect_streams, ← pfPrint_over hs]
  rfl

theorem pfModifier_over :
    pfModifier (pf.over send s) ch = (pfModifier pf ch).map (Pf.over send s) := by
  unfold pfModifier
  rw [over_size, over_spacing]
  split_ifs <;> rfl

theorem pfGetnum_over :
    pfGetnum (pf.over send s) ch = (pfGetnum pf ch).map (Pf.over send s) := by
  unfold pfGetnum
  split_ifs
  · change vaUnsigned .intsz pf.ap >>= _ = _
    cases vaUnsigned .intsz pf.ap <;> rfl
  · change vaSigned pf.size pf.ap >>= _ = _
    cases vaSigned pf.size pf.ap with
    | error e => rfl
    | ok r =>
      rw [ok_bind, ok_bind]
      dsimp only
      split_ifs <;> rfl
  · change vaUnsigned pf.size pf.ap >>= _ = _
    cases vaUnsigned pf.size pf.ap <;> rfl

theorem pfPrintnum_over (hs : Streams send) :
    pfPrintnum send (pf.over send s) = (pfPrintnum collect pf).map (Pf.over send s) := by
  change digitLoop pf.base (numberBufSize - 1) pf.num [] >>= _ = _
  unfold pfPrintnum
  cases digitLoop pf.base (numberBufSize - 1) pf.num [] with
  | error e => rfl
  | ok text => exact congrArg Except.ok (pfPrintstuff_over _ hs _ _ _)

/-- One character. -/
theorem pfSend_over (hs : Streams send) :
    pfSend send (pf.over send s) ch = (pfSend collect pf ch).map (Pf.over send s) := by
  unfold pfSend
  rw [over_inPct]
  split_ifs
  · rfl
  · exact congrArg Except.ok (pfPrint_over hs _)
  · rfl
  · exact pfModifier_over
  · rw [pfGetnum_over]
    cases pfGetnum pf ch with
    | error e => rfl
    | ok pf₁ =>
      change pfPrintnum send ((pfSetbase pf₁ ch).over send s) >>= _ =
        (pfPrintnum collect (pfSetbase pf₁ ch) >>= _).map _
      rw [pfPrintnum_over hs]
      cases pfPrintnum collect (pfSetbase pf₁ ch) <;> rfl
  · change vaString pf.ap >>= _ = _
    cases vaString pf.ap with
    | error e => rfl
    | ok r =>
      exact congrArg (fun pf => Except.ok (pfEndfield pf))
        (pfPrintstuff_over { pf with ap := r.2 } hs _ _ _)
  · change vaUnsigned .intsz pf.ap >>= _ = _
    cases vaUnsigned .intsz pf.ap with
    | error e => rfl
    | ok r =>
      exact congrArg (fun pf => Except.ok (pfEndfield pf))
        (pfPrintstuff_over { pf with ap := r.2 } hs _ _ _)
  · exact congrArg (fun pf => Except.ok (pfEndfield pf)) (pfPrintstuff_over _ hs _ _ _)

theorem vprintfLoop_over (hs : Streams send) (format : List UInt8) :
    vprintfLoop send (pf.over send s) format =
      (vprintfLoop collect pf format).map (Pf.over send s) := by
  induction format generalizing pf with
  | nil => rfl
  | cons ch format ih =>
    rw [vprintfLoop, vprintfLoop, pfSend_over hs]
    cases pfSend collect pf ch with
    | error e => rfl
    | ok pf₁ => exact ih

/-- A call sends what a call that collects the text has collected. -/
theorem vprintf_over (hs : Streams send) (format : List UInt8) (ap : List PfArg) :
    vprintf send s format ap = (vprintf collect [] format ap).map fun r => (r.1, send s r.2) := by
  have hstart : pfStart s ap = (pfStart [] ap).over send s := by
    unfold pfStart pfEndfield Pf.over
    rw [hs.nil]
  rw [vprintf, vprintf, hstart, vprintfLoop_over hs]
  cases vprintfLoop collect (pfStart [] ap) (cstr format) with
  | error e => rfl
  | ok pf => simp only [Except.map, ok_bind, Pf.over]

end Over

end OS161
