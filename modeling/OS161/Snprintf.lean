import Mathlib.Data.List.TakeWhile
import OS161.ByteMoves
import OS161.Printf

/-!
# `snprintf`

`vsnprintf` is `__vprintf` with an output function that fills a buffer. `vsnprintf_truncates` : with
matching arguments (`PfMatches`) it returns the length of the full text and leaves in the buffer
what fits of it. That it returns says as well that `__pf_printnum` stays within its buffer and does
not divide by zero, since the model stops there.

`charcount` counts what is sent (`Pf.Counted`), and a character of the format whose argument matches
is taken (`pfSend_ok`).
-/

namespace OS161

open Numeral Function

/-! ## The count -/

section Count

variable {pf pf' : Pf (List UInt8)} {ch : UInt8}

/-- `charcount` is the number of characters that were sent. -/
def Pf.Counted (pf : Pf (List UInt8)) : Prop :=
  pf.charcount = word32 pf.clientdata.length

theorem Pf.Counted.print (h : pf.Counted) (txt : List UInt8) :
    (pfPrint collect pf txt).Counted := by
  change word32 (pf.charcount + txt.length) = word32 (pf.clientdata ++ txt).length
  rw [h, List.length_append]
  unfold word32
  omega

theorem Pf.Counted.printstuff (h : pf.Counted) (pre pre2 stuff : List UInt8) :
    (pfPrintstuff collect pf pre pre2 stuff).Counted := by
  rw [pfPrintstuff_eq collect_streams]
  exact h.print _

theorem Pf.Counted.modifier (h : pf.Counted) (hm : pfModifier pf ch = .ok pf') : pf'.Counted := by
  unfold pfModifier at hm
  split_ifs at hm
  all_goals
    cases hm
    exact h

theorem Pf.Counted.getnum (h : pf.Counted) (hg : pfGetnum pf ch = .ok pf') : pf'.Counted := by
  unfold pfGetnum at hg
  split_ifs at hg
  · obtain ⟨r, -, hg⟩ := bind_eq_ok.mp hg
    cases hg
    exact h
  · obtain ⟨r, -, hg⟩ := bind_eq_ok.mp hg
    dsimp only at hg
    split_ifs at hg
    all_goals
      cases hg
      exact h
  · obtain ⟨r, -, hg⟩ := bind_eq_ok.mp hg
    cases hg
    exact h

theorem Pf.Counted.send (h : pf.Counted) (hsend : pfSend collect pf ch = .ok pf') :
    pf'.Counted := by
  unfold pfSend at hsend
  split_ifs at hsend
  · cases hsend
    exact h.print _
  · cases hsend
    exact h
  · exact h.modifier hsend
  · obtain ⟨pf₁, hg, hsend⟩ := bind_eq_ok.mp hsend
    obtain ⟨pf₂, hp, hsend⟩ := bind_eq_ok.mp hsend
    obtain ⟨text, -, hp⟩ := bind_eq_ok.mp hp
    cases hp
    cases hsend
    have hnum : pf₁.Counted := h.getnum hg
    have hbase : (pfSetbase pf₁ ch).Counted := hnum
    exact hbase.printstuff _ _ _
  · obtain ⟨r, -, hsend⟩ := bind_eq_ok.mp hsend
    cases hsend
    have hap : Pf.Counted { pf with ap := r.2 } := h
    exact hap.printstuff _ _ _
  · obtain ⟨r, -, hsend⟩ := bind_eq_ok.mp hsend
    cases hsend
    have hap : Pf.Counted { pf with ap := r.2 } := h
    exact hap.printstuff _ _ _
  · cases hsend
    exact h.printstuff _ _ _

theorem Pf.Counted.loop (h : pf.Counted) {format : List UInt8}
    (hloop : vprintfLoop collect pf format = .ok pf') : pf'.Counted := by
  induction format generalizing pf with
  | nil =>
    cases hloop
    exact h
  | cons ch format ih =>
    obtain ⟨pf₁, hsend, hloop⟩ := bind_eq_ok.mp hloop
    exact ih (h.send hsend) hloop

/-- The value that is returned is the length of the text, if this is an `int`. -/
theorem vprintf_count {format : List UInt8} {ap : List PfArg} {chars : ℤ} {text : List UInt8}
    (h : vprintf collect [] format ap = .ok (chars, text)) (hlen : text.length < 2 ^ 31) :
    chars = text.length := by
  obtain ⟨pf, hloop, h⟩ := bind_eq_ok.mp h
  obtain ⟨rfl, rfl⟩ := Prod.mk.inj (Except.ok.inj h)
  have hstart : (pfStart [] ap).Counted := rfl
  have hcount : pf.charcount = word32 pf.clientdata.length := hstart.loop hloop
  rw [hcount, word32, Nat.mod_eq_of_lt (by omega)]
  exact Int.bmod_eq_of_le_mul_two (by omega) (by omega)

end Count

/-! ## Matching arguments -/

/-- The type of an argument. -/
inductive PfKind
  | word
  | dword
  | str
  deriving DecidableEq, Repr

/-- The kind of an argument. -/
def PfArg.kind : PfArg → PfKind
  | .word _ => .word
  | .dword _ => .dword
  | .str _ => .str

/-- The type of an integer of this size. -/
def PfSize.kind : PfSize → PfKind
  | .llongsz => .dword
  | _ => .word

/-- The size after a modifier. -/
def PfSize.modified (size : PfSize) (ch : UInt8) : PfSize :=
  if ch = ascii 'l' then if size = .longsz then .llongsz else .longsz
  else if ch = ascii 'z' then .sizetsz
  else size

/-- The arguments that a directive with this type takes. -/
def PfSize.takes (size : PfSize) (ch : UInt8) : List PfKind :=
  if ch ∈ pfIntegers then [if ch = ascii 'p' then .word else size.kind]
  else if ch = ascii 's' then [.str]
  else if ch = ascii 'c' then [.word]
  else []

/-- The arguments that the rest of a format takes, after `%` or not. -/
def pfWants : Bool → PfSize → List UInt8 → List PfKind
  | _, _, [] => []
  | false, size, ch :: format => pfWants (ch = ascii '%') size format
  | true, size, ch :: format =>
    if ch ∈ pfModifiers then pfWants true (size.modified ch) format
    else size.takes ch ++ pfWants false .intsz format

/-- The arguments begin with those that the format takes. -/
def PfMatches (format : List UInt8) (ap : List PfArg) : Prop :=
  pfWants false .intsz (cstr format) <+: ap.map PfArg.kind

instance (format : List UInt8) (ap : List PfArg) : Decidable (PfMatches format ap) :=
  inferInstanceAs (Decidable (_ <+: _))

section Matching

variable {σ : Type} {send : σ → List UInt8 → σ} {pf : Pf σ} {ch : UInt8} {size : PfSize}
  {ap : List PfArg} {ks : List PfKind} {format : List UInt8}

theorem exists_of_kind {k : PfKind} (h : k :: ks <+: ap.map PfArg.kind) :
    ∃ x ap', ap = x :: ap' ∧ x.kind = k ∧ ks <+: ap'.map PfArg.kind := by
  cases ap with
  | nil => simp at h
  | cons x ap' =>
    obtain ⟨hk, hks⟩ := List.cons_prefix_cons.mp h
    exact ⟨x, ap', rfl, hk.symm, hks⟩

theorem vaUnsigned_ok (size : PfSize) (h : size.kind :: ks <+: ap.map PfArg.kind) :
    ∃ n ap', vaUnsigned size ap = .ok (n, ap') ∧ ks <+: ap'.map PfArg.kind := by
  obtain ⟨x, ap', rfl, hk, hks⟩ := exists_of_kind h
  cases size <;> cases x <;> cases hk <;> exact ⟨_, _, rfl, hks⟩

theorem vaSigned_ok (h : size.kind :: ks <+: ap.map PfArg.kind) :
    ∃ z ap', vaSigned size ap = .ok (z, ap') ∧ ks <+: ap'.map PfArg.kind := by
  obtain ⟨x, ap', rfl, hk, hks⟩ := exists_of_kind h
  cases size <;> cases x <;> cases hk <;> exact ⟨_, _, rfl, hks⟩

theorem vaString_ok (h : .str :: ks <+: ap.map PfArg.kind) :
    ∃ s ap', vaString ap = .ok (s, ap') ∧ ks <+: ap'.map PfArg.kind := by
  obtain ⟨x, ap', rfl, hk, hks⟩ := exists_of_kind h
  cases x <;> cases hk
  exact ⟨_, _, rfl, hks⟩

theorem pfModifier_ok (pf : Pf σ) (hch : ch ∈ pfModifiers) : ∃ pf', pfModifier pf ch = .ok pf' ∧
    pf'.inPct = pf.inPct ∧ pf'.ap = pf.ap ∧ pf'.size = pf.size.modified ch := by
  have hcases : ch = ascii '#' ∨ ch = ascii '-' ∨ ch = ascii 'l' ∨ ch = ascii 'z' ∨ ch = ascii '0' ∨
      ascii '0' < ch ∧ ch ≤ ascii '9' ∧ ch ≠ ascii '#' ∧ ch ≠ ascii '-' ∧ ch ≠ ascii 'l' ∧
        ch ≠ ascii 'z' ∧ ch ≠ ascii '0' := by
    revert ch
    decide +kernel
  unfold pfModifier
  rcases hcases with rfl | rfl | rfl | rfl | rfl | ⟨h1, h2, h3, h4, h5, h6, h7⟩
  · exact ⟨_, rfl, rfl, rfl, rfl⟩
  · exact ⟨_, rfl, rfl, rfl, rfl⟩
  · exact ⟨_, rfl, rfl, rfl, rfl⟩
  · exact ⟨_, rfl, rfl, rfl, rfl⟩
  · by_cases hsp : 0 < pf.spacing
    · exact ⟨{ pf with spacing := pf.spacing * 10 }, if_pos hsp, rfl, rfl, rfl⟩
    · exact ⟨{ pf with fillchar := ascii '0' }, if_neg hsp, rfl, rfl, rfl⟩
  · rw [if_neg h3, if_neg h4, if_neg h5, if_neg h6, if_neg h7, if_pos ⟨h1, h2⟩]
    refine ⟨_, rfl, rfl, rfl, ?_⟩
    rw [PfSize.modified, if_neg h5, if_neg h6]

theorem pfGetnum_ok (hch : ch ∈ pfIntegers) (h : pf.size.takes ch ++ ks <+: pf.ap.map PfArg.kind) :
    ∃ pf', pfGetnum pf ch = .ok pf' ∧ ks <+: pf'.ap.map PfArg.kind := by
  rw [PfSize.takes, if_pos hch, List.singleton_append] at h
  unfold pfGetnum
  split_ifs with hp hd
  · rw [if_pos hp] at h
    obtain ⟨n, ap', hva, hks⟩ := vaUnsigned_ok .intsz h
    rw [hva]
    exact ⟨_, rfl, hks⟩
  · rw [if_neg hp] at h
    obtain ⟨z, ap', hva, hks⟩ := vaSigned_ok h
    rw [hva, ok_bind]
    dsimp only
    split_ifs
    all_goals exact ⟨_, rfl, hks⟩
  · rw [if_neg hp] at h
    obtain ⟨n, ap', hva, hks⟩ := vaUnsigned_ok pf.size h
    rw [hva]
    exact ⟨_, rfl, hks⟩

/-- A character whose argument matches is taken, and the rest of the arguments match the rest of the
format. -/
theorem pfSend_ok (hs : Streams send) (hch : ch ≠ 0)
    (h : pfWants pf.inPct pf.size (ch :: format) <+: pf.ap.map PfArg.kind) :
    ∃ pf', pfSend send pf ch = .ok pf' ∧
      pfWants pf'.inPct pf'.size format <+: pf'.ap.map PfArg.kind := by
  unfold pfSend
  rw [if_neg hch]
  cases hpct : pf.inPct with
  | false =>
    rw [hpct, pfWants] at h
    by_cases hp : ch = ascii '%'
    · rw [if_neg (by simp [hp]), if_pos rfl]
      refine ⟨_, rfl, ?_⟩
      simpa [hp] using h
    · rw [if_pos ⟨rfl, hp⟩]
      refine ⟨_, rfl, ?_⟩
      change pfWants pf.inPct pf.size format <+: pf.ap.map PfArg.kind
      rw [hpct]
      simpa [hp] using h
  | true =>
    rw [hpct, pfWants] at h
    rw [if_neg (by simp), if_neg (by simp)]
    split_ifs with hm hi hstr hc
    · rw [if_pos hm] at h
      obtain ⟨pf', he, hin, hap, hsize⟩ := pfModifier_ok pf hm
      refine ⟨pf', he, ?_⟩
      rw [hin, hpct, hap, hsize]
      exact h
    · rw [if_neg hm] at h
      obtain ⟨pf₁, hg, hks⟩ := pfGetnum_ok hi h
      rw [hg, ok_bind, printInteger_eq hs hi hg, ok_bind]
      exact ⟨_, rfl, hks⟩
    · rw [if_neg hm, PfSize.takes, if_neg hi, if_pos hstr] at h
      obtain ⟨s, ap', hva, hks⟩ := vaString_ok h
      rw [hva, ok_bind]
      dsimp only
      rw [pfPrintstuff_eq hs]
      exact ⟨_, rfl, hks⟩
    · rw [if_neg hm, PfSize.takes, if_neg hi, if_neg hstr, if_pos hc] at h
      obtain ⟨n, ap', hva, hks⟩ := vaUnsigned_ok .intsz h
      rw [hva, ok_bind]
      dsimp only
      rw [pfPrintstuff_eq hs]
      exact ⟨_, rfl, hks⟩
    · rw [if_neg hm, PfSize.takes, if_neg hi, if_neg hstr, if_neg hc] at h
      rw [pfPrintstuff_eq hs]
      exact ⟨_, rfl, h⟩

theorem vprintfLoop_ok (hs : Streams send) : ∀ (format : List UInt8) (pf : Pf σ),
    (∀ ch ∈ format, ch ≠ 0) → pfWants pf.inPct pf.size format <+: pf.ap.map PfArg.kind →
      ∃ pf', vprintfLoop send pf format = .ok pf'
  | [], pf, _, _ => ⟨pf, rfl⟩
  | ch :: format, pf, hne, h => by
    obtain ⟨pf₁, hsend, h₁⟩ := pfSend_ok hs (hne ch List.mem_cons_self) h
    obtain ⟨pf', hloop⟩ := vprintfLoop_ok hs format pf₁
      (fun c hc => hne c (List.mem_cons_of_mem _ hc)) h₁
    exact ⟨pf', by rw [vprintfLoop, hsend, ok_bind, hloop]⟩

theorem ne_zero_of_mem_cstr {l : List UInt8} {c : UInt8} (h : c ∈ cstr l) : c ≠ 0 := by
  simpa using List.mem_takeWhile_imp h

/-- With matching arguments every format has an expansion. -/
theorem vprintf_ok {format : List UInt8} {ap : List PfArg} (h : PfMatches format ap) :
    ∃ chars text, vprintf collect [] format ap = .ok (chars, text) := by
  obtain ⟨pf, hloop⟩ := vprintfLoop_ok collect_streams (cstr format) (pfStart [] ap)
    (fun c hc => ne_zero_of_mem_cstr hc) h
  exact ⟨_, _, by rw [vprintf, hloop, ok_bind]⟩

end Matching

/-! ## `vsnprintf` -/

/-- One character more at the end of bytes that were moved. -/
theorem moveBytes_cons (c : UInt8) (data : List UInt8) (mem : ℕ → UInt8) (start k : ℕ) :
    moveBytes (fun i => data.getD i 0) 0 (update mem start c) (start + 1) k =
      moveBytes (fun i => (c :: data).getD i 0) 0 mem start (k + 1) := by
  rw [Nat.add_comm k, ← moveBytes_add, moveBytes_one]
  refine moveBytes_congr fun x hx => ?_
  rw [Nat.zero_add, Nat.zero_add, Nat.add_comm 1, List.getD_cons_succ]

/-- What is sent goes to the buffer as long as there is room. -/
theorem snprintfSend_eq (data : List UInt8) (snp : Snp) (h : snp.bufpos ≤ snp.buflen) :
    snprintfSend snp data = { snp with
      mem := moveBytes (fun i => data.getD i 0) 0 snp.mem (snp.buf + snp.bufpos)
        (min (snp.buflen - snp.bufpos) data.length)
      bufpos := min snp.buflen (snp.bufpos + data.length) } := by
  induction data generalizing snp with
  | nil =>
    rw [List.length_nil, Nat.min_zero, moveBytes_zero, Nat.add_zero, Nat.min_eq_right h]
    rfl
  | cons c data ih =>
    change snprintfSend (snp.put c) data = _
    unfold Snp.put
    split_ifs with hlt
    · rw [ih _ (by dsimp only; omega)]
      have hmin : min (snp.buflen - snp.bufpos) (data.length + 1) =
          min (snp.buflen - (snp.bufpos + 1)) data.length + 1 := by omega
      rw [← Nat.add_assoc, moveBytes_cons, List.length_cons, hmin, Nat.add_right_comm]
      rfl
    · have hfull : snp.buflen - snp.bufpos = 0 := by omega
      rw [ih snp h, hfull, Nat.zero_min, Nat.zero_min, moveBytes_zero, moveBytes_zero]
      congr 1
      omega

/-- The buffer has what fits of the text, with a terminator, and nothing else was written. -/
structure Truncated (mem : ℕ → UInt8) (buf len : ℕ) (text : List UInt8) (mem' : ℕ → UInt8) :
    Prop where
  chars : ∀ i < min (len - 1) text.length, mem' (buf + i) = text.getD i 0
  terminator : 0 < len → mem' (buf + min (len - 1) text.length) = 0
  outside : ∀ a, a < buf ∨ buf + len ≤ a → mem' a = mem a
  after : ∀ a, buf + min (len - 1) text.length < a → mem' a = mem a

theorem moveBytes_truncated (mem : ℕ → UInt8) (buf len : ℕ) (text : List UInt8) :
    Truncated mem buf len text (if 0 < len then
      update (moveBytes (fun i => text.getD i 0) 0 mem buf (min (len - 1) text.length))
        (buf + min (len - 1) text.length) 0
      else moveBytes (fun i => text.getD i 0) 0 mem buf (min (len - 1) text.length)) := by
  by_cases hlen : 0 < len
  · rw [if_pos hlen]
    refine ⟨fun i hi => ?_, fun _ => update_self .., fun a ha => ?_, fun a ha => ?_⟩
    · rw [update_of_ne (by omega), moveBytes, if_pos (by omega), Nat.add_sub_cancel_left,
        Nat.zero_add]
    · rw [update_of_ne (by omega), moveBytes, if_neg (by omega)]
    · rw [update_of_ne (by omega), moveBytes, if_neg (by omega)]
  · rw [if_neg hlen]
    refine ⟨fun i hi => by omega, fun h => absurd h hlen, fun a ha => ?_, fun a ha => ?_⟩
    · rw [moveBytes, if_neg (by omega)]
    · rw [moveBytes, if_neg (by omega)]

/-- `vsnprintf` with matching arguments returns the length of the full text, and leaves in the
buffer what fits of it. -/
theorem vsnprintf_truncates {fmt : List UInt8} {ap : List PfArg} (h : PfMatches fmt ap) :
    ∃ text, fullText fmt ap = .ok text ∧ (text.length < 2 ^ 31 → ∀ mem buf len, ∃ mem',
      vsnprintf mem buf len fmt ap = .ok (text.length, mem') ∧
        Truncated mem buf len text mem') := by
  obtain ⟨chars, text, hv⟩ := vprintf_ok h
  refine ⟨text, by rw [fullText, hv, ok_bind], fun hlen mem buf len => ?_⟩
  obtain rfl := vprintf_count hv hlen
  have hbuflen : (if len = 0 then 0 else len - 1) = len - 1 := by
    split_ifs <;> omega
  rw [vsnprintf, hbuflen, vprintf_over snprintfSend_streams, hv, Except.map, ok_bind,
    snprintfSend_eq _ _ (Nat.zero_le _)]
  refine ⟨_, rfl, ?_⟩
  rw [Nat.add_zero, Nat.sub_zero, Nat.zero_add]
  exact moveBytes_truncated mem buf len text

theorem vsnprintf_truncates_mixed :
    PfMatches ("%-05d|%#llx%k %s%".toList.map ascii) [.word 12, .dword 255, .str none] ∧
      ∃ text, fullText ("%-05d|%#llx%k %s%".toList.map ascii) [.word 12, .dword 255, .str none] =
        .ok text ∧ (text.length < 2 ^ 31 → ∀ mem buf len, ∃ mem',
          vsnprintf mem buf len ("%-05d|%#llx%k %s%".toList.map ascii)
            [.word 12, .dword 255, .str none] = .ok (text.length, mem') ∧
              Truncated mem buf len text mem') :=
  ⟨by decide, vsnprintf_truncates (by decide)⟩

end OS161
