import OS161.Snprintf

/-!
# Printed numbers

A directive for an integer has flags, a field width, a size and a type (`directive`). `readBack`
reads the text of its field : it takes off pad spaces, the sign and the base prefix and reads the
digits that are left in the base of the type.

`vprintfLoop_directive` : a directive between fields sends the text of its argument.
`readBack_directiveText` : with both `-` and `0` the padding is of zeros and on the right, where
zeros are digits of the number. `field_reads_back_iff` : in all other cases the text reads back as
the argument.
-/

namespace OS161

open Numeral

/-! ## Directives -/

/-- The flags of a conversion. -/
inductive PfFlag
  | alt
  | minus
  | zero
  deriving DecidableEq, Repr

/-- The character of a flag. -/
def PfFlag.ch : PfFlag → UInt8
  | .alt => ascii '#'
  | .minus => ascii '-'
  | .zero => ascii '0'

/-- The size modifier. -/
def PfSize.text : PfSize → List UInt8
  | .intsz => []
  | .longsz => [ascii 'l']
  | .llongsz => [ascii 'l', ascii 'l']
  | .sizetsz => [ascii 'z']

/-- A field width; there is none for `0`. -/
def widthText (width : ℕ) : List UInt8 :=
  if width = 0 then [] else numeral digitTable 10 width

/-- The integer types. -/
inductive PfConv
  | d
  | u
  | o
  | x
  | p
  deriving DecidableEq, Repr

namespace PfConv

/-- The character of a conversion. -/
def ch : PfConv → UInt8
  | d => ascii 'd'
  | u => ascii 'u'
  | o => ascii 'o'
  | x => ascii 'x'
  | p => ascii 'p'

/-- The base of a conversion. -/
def base : PfConv → ℕ
  | d => 10
  | u => 10
  | o => 8
  | x => 16
  | p => 16

/-- The type of the argument. -/
def kind : PfConv → PfSize → PfKind
  | p, _ => .word
  | _, size => size.kind

/-- The value of the argument : `%d` takes a signed one. -/
def value : PfConv → PfArg → ℤ
  | d, .word w => w.toInt
  | d, .dword w => w.toInt
  | _, .word w => w.toNat
  | _, .dword w => w.toNat
  | _, .str _ => 0

/-- The base prefix with these flags. -/
def basePre (conv : PfConv) (flags : List PfFlag) : List UInt8 :=
  bPrefix (.alt ∈ flags ∨ conv = p) conv.base

/-- The length of the sign, the base prefix and the digits. -/
def naturalLength (conv : PfConv) (flags : List PfFlag) (arg : PfArg) : ℕ :=
  (sPrefix (conv.value arg < 0)).length + (conv.basePre flags).length +
    (numeral digitTable conv.base (conv.value arg).natAbs).length

end PfConv

/-- A directive for an integer. -/
def directive (flags : List PfFlag) (width : ℕ) (size : PfSize) (conv : PfConv) : List UInt8 :=
  ascii '%' :: (flags.map PfFlag.ch ++ (widthText width ++ (size.text ++ [conv.ch])))

/-- The digits after a base prefix. -/
def readDigits (pre : List UInt8) (base : ℕ) (text : List UInt8) : Option ℕ :=
  if pre <+: text then numeralValue digitTable base (text.drop pre.length) else none

/-- The number that a field has. -/
def readBack (pre : List UInt8) (base : ℕ) (text : List UInt8) : Option ℤ :=
  let body := strip (ascii ' ') text
  if body.head? = some (ascii '-') then (readDigits pre base body.tail).map fun n : ℕ => -(n : ℤ)
  else (readDigits pre base body).map fun n : ℕ => (n : ℤ)

/-! ## Taking a directive -/

section Taking

variable {σ : Type} {send : σ → List UInt8 → σ} {pf pf' : Pf σ} {ch : UInt8} {size : PfSize}
  {arg : PfArg} {conv : PfConv} {ap : List PfArg}

theorem pfSend_modifier (hin : pf.inPct = true) (hch : ch ∈ pfModifiers) :
    pfSend send pf ch = pfModifier pf ch := by
  have hne : ch ≠ 0 := by
    rintro rfl
    exact absurd hch (by decide)
  rw [pfSend, if_neg hne, if_neg (by simp [hin]), if_neg (by simp [hin]), if_pos hch]

theorem vprintfLoop_modifier (h : pfModifier pf ch = .ok pf') (hin : pf.inPct = true)
    (hch : ch ∈ pfModifiers) (format : List UInt8) :
    vprintfLoop send pf (ch :: format) = vprintfLoop send pf' format := by
  rw [vprintfLoop, pfSend_modifier hin hch, h, ok_bind]

/-- The state after flags. -/
def Pf.flagged (pf : Pf σ) (flags : List PfFlag) : Pf σ :=
  { pf with
    altformat := pf.altformat || PfFlag.alt ∈ flags
    rightspc := pf.rightspc || PfFlag.minus ∈ flags
    fillchar := if PfFlag.zero ∈ flags then ascii '0' else pf.fillchar }

theorem flagged_cons (pf : Pf σ) (flag : PfFlag) (flags : List PfFlag) :
    (pf.flagged [flag]).flagged flags = pf.flagged (flag :: flags) := by
  cases flag <;> simp [Pf.flagged]

theorem pfModifier_flag (flag : PfFlag) (hsp : pf.spacing = 0) :
    flag.ch ∈ pfModifiers ∧ pfModifier pf flag.ch = .ok (pf.flagged [flag]) := by
  cases flag with
  | alt =>
    refine ⟨by decide, ?_⟩
    change Except.ok { pf with altformat := true } = _
    simp [Pf.flagged]
  | minus =>
    refine ⟨by decide, ?_⟩
    change Except.ok { pf with rightspc := true } = _
    simp [Pf.flagged]
  | zero =>
    refine ⟨by decide, ?_⟩
    change (if 0 < pf.spacing then _ else Except.ok { pf with fillchar := ascii '0' }) = _
    rw [if_neg hsp.not_gt]
    simp [Pf.flagged]

theorem vprintfLoop_flags (flags : List PfFlag) (pf : Pf σ) (format : List UInt8)
    (hin : pf.inPct = true) (hsp : pf.spacing = 0) :
    vprintfLoop send pf (flags.map PfFlag.ch ++ format) =
      vprintfLoop send (pf.flagged flags) format := by
  induction flags generalizing pf with
  | nil => simp [Pf.flagged]
  | cons flag flags ih =>
    obtain ⟨hmem, hm⟩ := pfModifier_flag flag hsp
    rw [List.map_cons, List.cons_append, vprintfLoop_modifier hm hin hmem,
      ih (pf.flagged [flag]) hin hsp, flagged_cons]

/-- A digit of a field width, not a leading zero. -/
theorem pfModifier_digit {d : ℕ} (pf : Pf σ) (hd : d < 10) (h : 0 < pf.spacing ∨ 0 < d) :
    digitOf digitTable d ∈ pfModifiers ∧ pfModifier pf (digitOf digitTable d) =
      .ok { pf with spacing := pf.spacing * 10 + d } := by
  rcases Nat.eq_zero_or_pos d with rfl | hpos
  · refine ⟨by decide, ?_⟩
    exact if_pos (h.resolve_right (lt_irrefl 0))
  · interval_cases d
    all_goals exact ⟨by decide, rfl⟩

theorem vprintfLoop_digits (pf : Pf σ) (hin : pf.inPct = true) (hsp : pf.spacing = 0) (width : ℕ)
    (hw : 0 < width) (format : List UInt8) :
    vprintfLoop send pf (numeral digitTable 10 width ++ format) =
      vprintfLoop send { pf with spacing := width } format := by
  induction width using Nat.strong_induction_on generalizing format with
  | _ width ih =>
    by_cases hlt : width < 10
    · obtain ⟨hmem, hm⟩ := pfModifier_digit pf hlt (Or.inr hw)
      rw [numeral_of_lt hlt, List.singleton_append, vprintfLoop_modifier hm hin hmem, hsp,
        Nat.zero_mul, Nat.zero_add]
    · -- the last digit is taken with the width that the digits before it have
      have hdiv : 0 < width / 10 := by omega
      obtain ⟨hmem, hm⟩ := pfModifier_digit { pf with spacing := width / 10 }
        (Nat.mod_lt width (by decide : 0 < 10)) (Or.inl hdiv)
      rw [numeral_of_le (by decide) (not_lt.mp hlt), List.append_assoc, List.singleton_append,
        ih _ (by omega) hdiv, vprintfLoop_modifier hm hin hmem]
      rw [Nat.div_add_mod']

theorem vprintfLoop_width (width : ℕ) (pf : Pf σ) (format : List UInt8) (hin : pf.inPct = true)
    (hsp : pf.spacing = 0) : vprintfLoop send pf (widthText width ++ format) =
      vprintfLoop send { pf with spacing := width } format := by
  unfold widthText
  split_ifs with hw
  · rw [List.nil_append, hw, ← hsp]
  · exact vprintfLoop_digits pf hin hsp width (Nat.pos_of_ne_zero hw) format

theorem vprintfLoop_size (size : PfSize) (pf : Pf σ) (format : List UInt8) (hin : pf.inPct = true)
    (hsize : pf.size = .intsz) : vprintfLoop send pf (size.text ++ format) =
      vprintfLoop send { pf with size := size } format := by
  have hl : pfModifier pf (ascii 'l') = .ok { pf with size := .longsz } := by
    change Except.ok { pf with size := if pf.size = PfSize.longsz then .llongsz else .longsz } = _
    rw [if_neg (by simp [hsize])]
  have hll : pfModifier { pf with size := .longsz } (ascii 'l') =
    .ok { pf with size := .llongsz } := rfl
  have hz : pfModifier pf (ascii 'z') = .ok { pf with size := .sizetsz } := rfl
  cases size with
  | intsz => rw [PfSize.text, List.nil_append, ← hsize]
  | longsz => exact vprintfLoop_modifier hl hin (by decide) format
  | llongsz =>
    exact (vprintfLoop_modifier hl hin (by decide) _).trans
      (vprintfLoop_modifier hll hin (by decide) format)
  | sizetsz => exact vprintfLoop_modifier hz hin (by decide) format

theorem PfConv.ch_mem (conv : PfConv) :
    conv.ch ∈ pfIntegers ∧ conv.ch ∉ pfModifiers ∧ conv.ch ≠ 0 := by
  cases conv <;> decide

theorem vaSigned_value (ap : List PfArg)
    (hk : arg.kind = size.kind) : vaSigned size (arg :: ap) = .ok (PfConv.d.value arg, ap) := by
  cases size <;> cases arg <;> cases hk <;> rfl

theorem vaUnsigned_value (ap : List PfArg)
    (hk : arg.kind = size.kind) (hc : conv ≠ .d) :
    ∃ n : ℕ, vaUnsigned size (arg :: ap) = .ok (n, ap) ∧ conv.value arg = n := by
  cases conv <;> first | exact absurd rfl hc | skip
  all_goals
    cases size <;> cases arg <;> cases hk <;> exact ⟨_, rfl, rfl⟩

/-- The state after `__pf_getnum` : the value as sign and magnitude. -/
def Pf.withValue (pf : Pf σ) (v : ℤ) (ap : List PfArg) : Pf σ :=
  { pf with sign := v < 0, num := v.natAbs, ap := ap }

theorem withValue_natCast (n : ℕ) (ap : List PfArg) (hsign : pf.sign = false) :
    pf.withValue n ap = { pf with num := n, ap := ap } := by
  simp [Pf.withValue, hsign]

theorem pfGetnum_unsigned
    (hk : arg.kind = size.kind) (hc : conv ≠ .d) (hsign : pf.sign = false) :
    (do let (num, ap) ← vaUnsigned size (arg :: ap)
        .ok { pf with num := num, ap := ap }) =
      (.ok (pf.withValue (conv.value arg) ap) : Except PfStop (Pf σ)) := by
  obtain ⟨n, hva, hv⟩ := vaUnsigned_value ap hk hc
  rw [hva, ok_bind, hv, withValue_natCast n ap hsign]

/-- The negation in 64 bits is exact for the most negative value as well. -/
theorem pfGetnum_signed (hk : arg.kind = pf.size.kind)
    (hap : pf.ap = arg :: ap) (hsign : pf.sign = false) :
    pfGetnum pf (ascii 'd') = .ok (pf.withValue (PfConv.d.value arg) ap) := by
  have hva : vaSigned pf.size pf.ap = .ok (PfConv.d.value arg, ap) := hap ▸ vaSigned_value ap hk
  have hrange := vaSigned_natAbs hva
  rw [pfGetnum, if_neg (by decide), if_pos rfl, hva, ok_bind]
  dsimp only
  split_ifs with hneg
  · have hmod : (-PfConv.d.value arg % 2 ^ 64).toNat = (PfConv.d.value arg).natAbs := by omega
    rw [hmod, Pf.withValue, decide_eq_true hneg]
  · obtain ⟨n, hn⟩ := Int.eq_ofNat_of_zero_le (not_lt.mp hneg)
    rw [hn, withValue_natCast n ap hsign]
    rfl

theorem pfGetnum_value
    (hk : arg.kind = conv.kind pf.size) (hap : pf.ap = arg :: ap) (hsign : pf.sign = false) :
    pfGetnum pf conv.ch = .ok (pf.withValue (conv.value arg) ap) := by
  cases conv with
  | d => exact pfGetnum_signed hk hap hsign
  | p =>
    have hword : arg.kind = PfSize.intsz.kind := hk
    rw [← pfGetnum_unsigned hword (by decide) hsign, ← hap]
    rfl
  | u | o | x =>
    rw [← pfGetnum_unsigned hk (by decide) hsign, ← hap]
    rfl

/-- The text that a directive sends. -/
def directiveText (flags : List PfFlag) (width : ℕ) (conv : PfConv) (arg : PfArg) : List UInt8 :=
  fieldText width (PfFlag.minus ∈ flags)
    (if PfFlag.zero ∈ flags then ascii '0' else ascii ' ')
    (sPrefix (conv.value arg < 0)) (conv.basePre flags)
    (numeral digitTable conv.base (conv.value arg).natAbs)

theorem pfSetbase_conv (pf : Pf σ) (conv : PfConv) (flags : List PfFlag)
    (hbase : pf.basePrefix = false)
    (halt : pf.altformat = decide (PfFlag.alt ∈ flags)) :
    (pfSetbase pf conv.ch).base = conv.base ∧
      bPrefix (pfSetbase pf conv.ch).basePrefix conv.base = conv.basePre flags := by
  have hp : conv.ch = ascii 'p' ↔ conv = .p := by
    cases conv <;> decide
  refine ⟨by cases conv <;> rfl, ?_⟩
  rw [pfSetbase, PfConv.basePre, hbase, halt]
  simp only [decide_eq_true_eq, hp]
  rfl

/-- The type at the end of a directive. -/
theorem pfSend_conv (hs : Streams send) (pf : Pf σ)
    (hin : pf.inPct = true) (hk : arg.kind = conv.kind pf.size) (hap : pf.ap = arg :: ap)
    (hsign : pf.sign = false) :
    pfSend send pf conv.ch = .ok (pfEndfield (pfPrint send (pf.withValue (conv.value arg) ap)
      (fieldText pf.spacing pf.rightspc pf.fillchar (sPrefix (conv.value arg < 0))
        (bPrefix (pfSetbase pf conv.ch).basePrefix (pfSetbase pf conv.ch).base)
        (numeral digitTable (pfSetbase pf conv.ch).base (conv.value arg).natAbs)))) := by
  obtain ⟨hint, hmod, hne⟩ := conv.ch_mem
  have hget := pfGetnum_value hk hap hsign
  rw [pfSend, if_neg hne, if_neg (by simp [hin]), if_neg (by simp [hin]), if_neg hmod, if_pos hint,
    hget, ok_bind, printInteger_eq hs hint hget]
  rfl

/-- Between fields the state is the one that `__pf_endfield` leaves. -/
def Pf.Idle (pf : Pf σ) : Prop :=
  pf.inPct = false → pfEndfield pf = pf

theorem Pf.Idle.sent (h : pf.Idle) (hsend : pfSend send pf ch = .ok pf') : pf'.Idle := by
  unfold pfSend at hsend
  split_ifs at hsend with h0 hplain hpct hm hi hstr hc
  · cases hsend
    intro hin
    exact congrArg (fun q => pfPrint send q [ch]) (h hin)
  · cases hsend
    exact fun hin => Bool.noConfusion hin
  · obtain ⟨q, hq, hin, -, -⟩ := pfModifier_ok pf hm
    cases hq.symm.trans hsend
    rw [Pf.Idle, hin]
    exact fun hfalse => absurd hfalse hpct
  · obtain ⟨q, -, hsend⟩ := bind_eq_ok.mp hsend
    obtain ⟨q', -, hsend⟩ := bind_eq_ok.mp hsend
    cases hsend
    exact fun _ => rfl
  · obtain ⟨r, -, hsend⟩ := bind_eq_ok.mp hsend
    cases hsend
    exact fun _ => rfl
  · obtain ⟨r, -, hsend⟩ := bind_eq_ok.mp hsend
    cases hsend
    exact fun _ => rfl
  · cases hsend
    exact fun _ => rfl

theorem Pf.Idle.loop {format : List UInt8} (h : pf.Idle)
    (hloop : vprintfLoop send pf format = .ok pf') : pf'.Idle := by
  induction format generalizing pf with
  | nil =>
    cases hloop
    exact h
  | cons ch format ih =>
    obtain ⟨pf₁, hsend, hloop⟩ := bind_eq_ok.mp hloop
    exact ih (h.sent hsend) hloop

/-- The state after the modifiers of a directive. -/
def Pf.modified (pf : Pf σ) (flags : List PfFlag) (width : ℕ) (size : PfSize) : Pf σ :=
  { pfEndfield pf with
    inPct := true
    size := size
    spacing := width
    rightspc := PfFlag.minus ∈ flags
    fillchar := if PfFlag.zero ∈ flags then ascii '0' else ascii ' '
    altformat := PfFlag.alt ∈ flags }

theorem vprintfLoop_modifiers (pf : Pf σ) (flags : List PfFlag) (width : ℕ) (size : PfSize)
    (format : List UInt8) : vprintfLoop send (pfEndfield pf)
      (ascii '%' :: (flags.map PfFlag.ch ++ (widthText width ++ (size.text ++ format)))) =
        vprintfLoop send (pf.modified flags width size) format := by
  change vprintfLoop send { pfEndfield pf with inPct := true } _ = _
  rw [vprintfLoop_flags _ _ _ rfl rfl, vprintfLoop_width _ _ _ rfl rfl,
    vprintfLoop_size _ _ _ rfl rfl]
  rfl

/-- A directive between fields sends its text and takes its argument. -/
theorem vprintfLoop_directive (hs : Streams send) (flags : List PfFlag) (width : ℕ)
    (hidle : pfEndfield pf = pf)
    (hap : pf.ap = arg :: ap) (hk : arg.kind = conv.kind size) :
    vprintfLoop send pf (directive flags width size conv) =
      .ok { pfPrint send pf (directiveText flags width conv arg) with ap := ap } := by
  obtain ⟨hbase, hpre⟩ := pfSetbase_conv (pf.modified flags width size) conv flags rfl rfl
  rw [← hidle, directive, vprintfLoop_modifiers, vprintfLoop,
    pfSend_conv hs (pf.modified flags width size) rfl hk hap rfl, ok_bind, hbase, hpre]
  rfl

end Taking

/-! ## Reading the text -/

theorem length_fieldText (spacing : ℕ) (rightspc : Bool) (fillchar : UInt8)
    (pre pre2 stuff : List UInt8) :
    (fieldText spacing rightspc fillchar pre pre2 stuff).length =
      max spacing (pre.length + pre2.length + stuff.length) := by
  unfold fieldText
  split_ifs
  all_goals
    simp only [List.length_append, List.length_replicate]
    omega

section Reading

variable {flags : List PfFlag} {conv : PfConv} {arg : PfArg}

theorem PfConv.base_bounds (conv : PfConv) : 1 < conv.base ∧ conv.base ≤ digitTable.length := by
  cases conv <;> decide

/-- The characters of base prefixes and digits. -/
def plainChars : List UInt8 :=
  ascii 'x' :: digitTable

theorem mem_basePre {c : UInt8} (hc : c ∈ conv.basePre flags) : c ∈ plainChars := by
  unfold PfConv.basePre bPrefix at hc
  split_ifs at hc
  · rcases List.mem_pair.mp hc with rfl | rfl
    all_goals decide
  · rw [List.mem_singleton.mp hc]
    decide
  · exact absurd hc List.not_mem_nil

/-- The digits of a field : the numeral, with zeros before and after it. -/
def paddedDigits (conv : PfConv) (n z k : ℕ) : List UInt8 :=
  List.replicate z (ascii '0') ++ numeral digitTable conv.base n ++ List.replicate k (ascii '0')

theorem paddedDigits_ne_nil {n z k : ℕ} : paddedDigits conv n z k ≠ [] := by
  simp [paddedDigits, numeral_ne_nil]

theorem mem_paddedDigits {n z k : ℕ} {c : UInt8} (hc : c ∈ paddedDigits conv n z k) :
    c ∈ plainChars := by
  have hzero : ascii '0' ∈ plainChars := by decide
  obtain ⟨hb, hle⟩ := conv.base_bounds
  rcases List.mem_append.mp hc with hc | hc
  · rcases List.mem_append.mp hc with hc | hc
    · exact List.eq_of_mem_replicate hc ▸ hzero
    · exact List.mem_cons_of_mem _ (mem_numeral digitTable_nodup hb hle hc).1
  · exact List.eq_of_mem_replicate hc ▸ hzero

theorem readDigits_padded (conv : PfConv) (flags : List PfFlag) (n z k : ℕ) :
    readDigits (conv.basePre flags) conv.base (conv.basePre flags ++ paddedDigits conv n z k) =
      some (n * conv.base ^ k) := by
  obtain ⟨hb, hle⟩ := conv.base_bounds
  rw [readDigits, if_pos (List.prefix_append _ _), List.drop_left]
  exact numeralValue_pad digitTable_nodup hb hle z k

/-- What is read of a field with pad spaces around it and zeros around its digits. -/
theorem readBack_padded (conv : PfConv) (flags : List PfFlag) (v : ℤ) (a b z k : ℕ) :
    readBack (conv.basePre flags) conv.base (List.replicate a (ascii ' ') ++
      (sPrefix (v < 0) ++ (conv.basePre flags ++ paddedDigits conv v.natAbs z k)) ++
        List.replicate b (ascii ' ')) = some (v * (conv.base : ℤ) ^ k) := by
  have hplain : ∀ c ∈ conv.basePre flags ++ paddedDigits conv v.natAbs z k, c ∈ plainChars := by
    intro c hc
    exact (List.mem_append.mp hc).elim mem_basePre mem_paddedDigits
  have hread := readDigits_padded conv flags v.natAbs z k
  have hne : conv.basePre flags ++ paddedDigits conv v.natAbs z k ≠ [] := by
    simp [paddedDigits_ne_nil]
  generalize conv.basePre flags ++ paddedDigits conv v.natAbs z k = digits at *
  have hspace : ascii ' ' ∉ digits := fun hc => absurd (hplain _ hc) (by decide)
  have hminus : ascii '-' ∉ digits := fun hc => absurd (hplain _ hc) (by decide)
  by_cases hv : v < 0
  · have hsign : sPrefix (v < 0) ++ digits = ascii '-' :: digits := by
      rw [decide_eq_true hv]
      rfl
    have hspace' : ascii ' ' ∉ ascii '-' :: digits :=
      List.not_mem_cons_of_ne_of_not_mem (by decide) hspace
    rw [hsign, readBack, strip_pad (List.cons_ne_nil _ _) hspace', if_pos List.head?_cons,
      List.tail_cons, hread, Option.map_some, Nat.cast_mul, Nat.cast_pow,
      Int.ofNat_natAbs_of_nonpos hv.le, neg_mul, neg_neg]
  · have hsign : sPrefix (v < 0) ++ digits = digits := by
      rw [decide_eq_false hv]
      rfl
    rw [hsign, readBack, strip_pad hne hspace,
      if_neg fun h => hminus (List.mem_of_head? h), hread, Option.map_some, Nat.cast_mul,
      Nat.cast_pow, Int.natAbs_of_nonneg (not_lt.mp hv)]

/-- The zeros that a directive puts after its digits. -/
def trailingZeros (flags : List PfFlag) (width : ℕ) (conv : PfConv) (arg : PfArg) : ℕ :=
  if PfFlag.minus ∈ flags ∧ PfFlag.zero ∈ flags then width - conv.naturalLength flags arg else 0

theorem length_directiveText (flags : List PfFlag) (width : ℕ) (conv : PfConv) (arg : PfArg) :
    (directiveText flags width conv arg).length = max width (conv.naturalLength flags arg) :=
  length_fieldText ..

/-- With both `-` and `0` the padding is read as digits. -/
theorem readBack_directiveText (flags : List PfFlag) (width : ℕ) (conv : PfConv) (arg : PfArg) :
    readBack (conv.basePre flags) conv.base (directiveText flags width conv arg) =
      some (conv.value arg * (conv.base : ℤ) ^ trailingZeros flags width conv arg) := by
  have hread := readBack_padded conv flags (conv.value arg)
  unfold directiveText fieldText trailingZeros PfConv.naturalLength
  generalize width - _ = m
  by_cases hminus : PfFlag.minus ∈ flags
  · by_cases hzero : PfFlag.zero ∈ flags
    · have h := hread 0 0 0 m
      simpa [hminus, hzero, paddedDigits] using h
    · have h := hread 0 m 0 0
      simpa [hminus, hzero, paddedDigits] using h
  · by_cases hzero : PfFlag.zero ∈ flags
    · have h := hread 0 0 m 0
      simpa [hminus, hzero, paddedDigits] using h
    · have h := hread m 0 0 0
      have hfill : ascii ' ' ≠ ascii '0' := by decide
      simpa [hminus, hzero, hfill, paddedDigits] using h

/-- The text of a field has the right length, and reads back as the argument. -/
def ReadsBack (flags : List PfFlag) (width : ℕ) (conv : PfConv) (arg : PfArg)
    (text : List UInt8) : Prop :=
  text.length = max width (conv.naturalLength flags arg) ∧
    readBack (conv.basePre flags) conv.base text = some (conv.value arg)

theorem readsBack_directiveText (flags : List PfFlag) (width : ℕ) (conv : PfConv) (arg : PfArg) :
    ReadsBack flags width conv arg (directiveText flags width conv arg) ↔
      ¬(PfFlag.minus ∈ flags ∧ PfFlag.zero ∈ flags ∧ conv.naturalLength flags arg < width ∧
        conv.value arg ≠ 0) := by
  have hbase : (1 : ℤ) < conv.base := Nat.one_lt_cast.mpr conv.base_bounds.1
  have hzeros : trailingZeros flags width conv arg = 0 ↔ ¬(PfFlag.minus ∈ flags ∧
      PfFlag.zero ∈ flags ∧ conv.naturalLength flags arg < width) := by
    unfold trailingZeros
    split_ifs with h
    · simp [h, Nat.sub_eq_zero_iff_le]
    · simpa [and_assoc] using fun h1 h2 => absurd ⟨h1, h2⟩ h
  have hpow : (conv.base : ℤ) ^ trailingZeros flags width conv arg = 1 ↔
      trailingZeros flags width conv arg = 0 := by
    refine ⟨fun h => by_contra fun hne => (one_lt_pow₀ hbase hne).ne' h, fun h => ?_⟩
    rw [h, pow_zero]
  rw [ReadsBack, readBack_directiveText, Option.some_inj, mul_right_eq_self₀, hpow, hzeros,
    eq_true (length_directiveText flags width conv arg), true_and]
  tauto

end Reading

/-- In every run, the text of an integer field reads back as its argument unless the field is padded
with zeros on the right. -/
theorem field_reads_back_iff {args ap : List PfArg} {before : List UInt8} {pf : Pf (List UInt8)}
    {flags : List PfFlag} {width : ℕ} {size : PfSize} {conv : PfConv} {arg : PfArg}
    (hrun : vprintfLoop collect (pfStart [] args) before = .ok pf) (hin : pf.inPct = false)
    (hap : pf.ap = arg :: ap) (hk : arg.kind = conv.kind size) :
    ∃ text, vprintfLoop collect pf (directive flags width size conv) =
        .ok { pfPrint collect pf text with ap := ap } ∧
      (ReadsBack flags width conv arg text ↔
        ¬(PfFlag.minus ∈ flags ∧ PfFlag.zero ∈ flags ∧ conv.naturalLength flags arg < width ∧
          conv.value arg ≠ 0)) := by
  have hstart : (pfStart [] args : Pf (List UInt8)).Idle := fun _ => rfl
  have hidle : pfEndfield pf = pf := hstart.loop hrun hin
  exact ⟨_, vprintfLoop_directive collect_streams flags width hidle hap hk,
    readsBack_directiveText flags width conv arg⟩

theorem field_reads_back_iff_lowest :
    ∃ text, vprintfLoop collect (pfStart [] [.dword (BitVec.intMin 64)])
        (directive [.zero, .alt] 30 .llongsz .d) =
          .ok { pfPrint collect (pfStart [] [.dword (BitVec.intMin 64)]) text with ap := [] } ∧
      (ReadsBack [.zero, .alt] 30 .d (.dword (BitVec.intMin 64)) text ↔
        ¬(PfFlag.minus ∈ [PfFlag.zero, .alt] ∧ PfFlag.zero ∈ [PfFlag.zero, .alt] ∧
          PfConv.d.naturalLength [.zero, .alt] (.dword (BitVec.intMin 64)) < 30 ∧
            PfConv.d.value (.dword (BitVec.intMin 64)) ≠ 0)) :=
  field_reads_back_iff (show vprintfLoop collect (pfStart [] _) [] = .ok _ from rfl) rfl rfl rfl

/-- `12` with `%-05d`. -/
theorem field_pads_right :
    directive [.minus, .zero] 5 .intsz .d = "%-05d".toList.map ascii ∧
      fullText ("%-05d".toList.map ascii) [.word 12] = .ok ("12000".toList.map ascii) ∧
        readBack (PfConv.d.basePre [.minus, .zero]) PfConv.d.base ("12000".toList.map ascii) =
          some 12000 ∧ PfConv.d.value (.word 12) = 12 := by
  exact ⟨by decide, by decide, by decide, by decide⟩

end OS161
