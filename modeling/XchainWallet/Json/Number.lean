import XchainWallet.Json.Double

/-!
# The text of a number

`Number.text` writes a finite number as the language does: its shortest digits, with the point
among them, behind them or before them, and with an exponent where there would be more than 21
digits before the point or six zeros behind it. `readNumber` is the grammar of JSON: an integer
without leading zeros, a fraction and an exponent. A number too large to be a finite one is read as
an infinite one.

What is written is read back (`readNumber_text`), whatever follows it that no number goes on with.
-/

namespace Json

open Decimal

/-- A number: a finite one by its least units, or one of the others. -/
inductive Number where
  | finite (units : ℤ) (isDouble : IsDouble units.natAbs)
  | infinite (negative : Bool)
  | nan
deriving DecidableEq

namespace Number

/-- The number of a sign and a magnitude, an infinite one where there is none. -/
def ofMagnitude (negative : Bool) : Option {units : ℕ // IsDouble units} → Number
  | some magnitude =>
    if negative then .finite (-magnitude.1) (by rw [Int.natAbs_neg]; exact magnitude.2)
    else .finite magnitude.1 magnitude.2
  | none => .infinite negative

/-- The number of some digits and an exponent. -/
def ofDigits (digits : ℕ) (exponent : ℤ) : Number := ofMagnitude false (ofDecimal digits exponent)

end Number

/-! ### Writing -/

/-- The digits behind a point, and nothing where there are none. -/
def fractionText (digits : List Char) : List Char :=
  if digits = [] then [] else '.' :: digits

/-- An exponent with its sign. -/
def exponentText (exponent : ℤ) : List Char :=
  'e' :: (if exponent < 0 then '-' else '+') :: exponent.natAbs.repr.toList

/-- `digits * 10 ^ exponent` in the forms of `Number::toString`. -/
def decimalText (digits : ℕ) (exponent : ℤ) : List Char :=
  let text := digits.repr.toList
  let point : ℤ := exponent + text.length
  if 0 ≤ exponent ∧ point ≤ 21 then text ++ List.replicate exponent.toNat '0'
  else if 0 < point ∧ point ≤ 21 then
    text.take point.toNat ++ fractionText (text.drop point.toNat)
  else if -6 < point ∧ point ≤ 0 then
    '0' :: fractionText (List.replicate (-point).toNat '0' ++ text)
  else text.take 1 ++ fractionText (text.drop 1) ++ exponentText (point - 1)

/-- The text of a number that is not negative. -/
def magnitudeText (units : ℕ) : List Char :=
  if units = 0 then ['0']
  else decimalText (shortestDecimal units).1 (shortestDecimal units).2

/-- `String(number)`. -/
def Number.text : Number → List Char
  | .finite units _ =>
    if units < 0 then '-' :: magnitudeText units.natAbs else magnitudeText units.natAbs
  | .infinite negative => (if negative then "-Infinity" else "Infinity").toList
  | .nan => "NaN".toList

/-! ### Reading -/

/-- The digits in front, none of them too many zeros. -/
def readWhole (text : List Char) : Option (List Char × List Char) :=
  let digits := text.takeWhile Char.isDigit
  if digits ≠ [] ∧ (digits.head? = some '0' → digits.length = 1) then
    some (digits, text.dropWhile Char.isDigit)
  else none

/-- One or more digits. -/
def readDigits (text : List Char) : Option (List Char × List Char) :=
  if text.takeWhile Char.isDigit = [] then none
  else some (text.takeWhile Char.isDigit, text.dropWhile Char.isDigit)

/-- A point and the digits behind it, where there is one. -/
def readFraction : List Char → Option (List Char × List Char)
  | '.' :: rest => readDigits rest
  | text => some ([], text)

/-- The sign of an exponent, where it has one. -/
def readExponentSign : List Char → Bool × List Char
  | '+' :: rest => (false, rest)
  | '-' :: rest => (true, rest)
  | text => (false, text)

/-- An exponent, zero where there is none. -/
def readExponent : List Char → Option (ℤ × List Char)
  | [] => some (0, [])
  | c :: rest =>
    if c = 'e' ∨ c = 'E' then do
      let (digits, rest') ← readDigits (readExponentSign rest).2
      let exponent : ℤ := digitsValue digits
      some (if (readExponentSign rest).1 then -exponent else exponent, rest')
    else some (0, c :: rest)

/-- A number without its sign: its digits and the exponent they have. -/
def readDecimal (text : List Char) : Option ((ℕ × ℤ) × List Char) := do
  let (whole, text) ← readWhole text
  let (fraction, text) ← readFraction text
  let (exponent, text) ← readExponent text
  some ((digitsValue (whole ++ fraction), exponent - fraction.length), text)

/-- A number. -/
def readNumber : List Char → Option (Number × List Char)
  | '-' :: text => do
    let ((digits, exponent), rest) ← readDecimal text
    some (.ofMagnitude true (ofDecimal digits exponent), rest)
  | text => do
    let ((digits, exponent), rest) ← readDecimal text
    some (.ofMagnitude false (ofDecimal digits exponent), rest)

/-! ### Digits and what stops them -/

/-- A text that no digit goes on with. -/
def NoDigit (text : List Char) : Prop := ∀ c ∈ text.head?, c.isDigit = false

/-- A text that no number goes on with. -/
def NumberEnds (text : List Char) : Prop :=
  ∀ c ∈ text.head?, c.isDigit = false ∧ c ≠ '.' ∧ c ≠ 'e' ∧ c ≠ 'E'

theorem NumberEnds.noDigit {text : List Char} (h : NumberEnds text) : NoDigit text :=
  fun c hc => (h c hc).1

variable {digits rest : List Char}

theorem takeWhile_digits_append (h : digits.all Char.isDigit) (hrest : NoDigit rest) :
    (digits ++ rest).takeWhile Char.isDigit = digits := by
  have hstop : rest.takeWhile Char.isDigit = [] := by
    cases rest with
    | nil => rfl
    | cons c rest => rw [List.takeWhile_cons, if_neg (by simp [hrest c rfl])]
  rw [List.takeWhile_append_of_pos (List.all_eq_true.mp h), hstop, List.append_nil]

theorem dropWhile_digits_append (h : digits.all Char.isDigit) (hrest : NoDigit rest) :
    (digits ++ rest).dropWhile Char.isDigit = rest := by
  have hstop : rest.dropWhile Char.isDigit = rest := by
    cases rest with
    | nil => rfl
    | cons c rest => rw [List.dropWhile_cons, if_neg (by simp [hrest c rfl])]
  rw [List.dropWhile_append_of_pos (List.all_eq_true.mp h), hstop]

theorem readWhole_append (h : Digits digits) (hzero : digits.head? = some '0' → digits.length = 1)
    (hrest : NoDigit rest) :
    readWhole (digits ++ rest) = some (digits, rest) := by
  rw [readWhole, takeWhile_digits_append h.2 hrest, dropWhile_digits_append h.2 hrest]
  exact if_pos ⟨h.1, hzero⟩

theorem readDigits_append (h : Digits digits) (hrest : NoDigit rest) :
    readDigits (digits ++ rest) = some (digits, rest) := by
  rw [readDigits, takeWhile_digits_append h.2 hrest, dropWhile_digits_append h.2 hrest]
  exact if_neg h.1

variable {rest : List Char}

theorem noDigit_cons {c : Char} (h : c.isDigit = false) : NoDigit (c :: rest) := by
  intro d hd
  rw [← Option.some.inj hd]
  exact h

/-- What follows a fraction: no digit and no point. -/
private theorem readFraction_of_absent (h : ∀ c ∈ rest.head?, c ≠ '.') :
    readFraction rest = some ([], rest) := by
  unfold readFraction
  split
  · exact absurd rfl (h _ rfl)
  · rfl

theorem readFraction_append (h : digits.all Char.isDigit) (hrest : NoDigit rest)
    (hpoint : ∀ c ∈ rest.head?, c ≠ '.') :
    readFraction (fractionText digits ++ rest) = some (digits, rest) := by
  rw [fractionText]
  split
  · next hnil =>
    rw [hnil]
    exact readFraction_of_absent hpoint
  · next hcons => exact readDigits_append ⟨hcons, h⟩ hrest

theorem noDigit_fractionText (hrest : NoDigit rest) : NoDigit (fractionText digits ++ rest) := by
  rw [fractionText]
  split
  · exact hrest
  · exact noDigit_cons (by decide)

theorem readExponent_of_absent (h : NumberEnds rest) : readExponent rest = some (0, rest) := by
  cases rest with
  | nil => rfl
  | cons c rest =>
    obtain ⟨-, -, he, hE⟩ := h c rfl
    rw [readExponent, if_neg (not_or.mpr ⟨he, hE⟩)]

theorem readExponent_append (exponent : ℤ) (h : NumberEnds rest) :
    readExponent (exponentText exponent ++ rest) = some (exponent, rest) := by
  have hdigits := readDigits_append (digits_repr exponent.natAbs) h.noDigit
  by_cases hsign : exponent < 0
  · have hvalue : -(exponent.natAbs : ℤ) = exponent := by omega
    rw [exponentText, if_pos hsign, List.cons_append, List.cons_append, readExponent,
      if_pos (.inl rfl), readExponentSign]
    simp only [hdigits, Option.bind_eq_bind, Option.bind_some, digitsValue_repr, if_true, hvalue]
  · have hvalue : (exponent.natAbs : ℤ) = exponent := by omega
    rw [exponentText, if_neg hsign, List.cons_append, List.cons_append, readExponent,
      if_pos (.inl rfl), readExponentSign]
    simp only [hdigits, Option.bind_eq_bind, Option.bind_some, digitsValue_repr, hvalue]
    rfl

/-- The parts of a decimal that is written with an exponent or without. -/
theorem readDecimal_append {whole fraction text rest : List Char} {exponent : ℤ}
    (hfraction : fraction.all Char.isDigit) (hwhole : Digits whole)
    (hzero : whole.head? = some '0' → whole.length = 1) (hdigit : NoDigit text)
    (hpoint : ∀ c ∈ text.head?, c ≠ '.') (hexponent : readExponent text = some (exponent, rest)) :
    readDecimal (whole ++ (fractionText fraction ++ text)) =
      some ((digitsValue (whole ++ fraction), exponent - fraction.length), rest) := by
  have hfirst : readWhole (whole ++ (fractionText fraction ++ text)) =
      some (whole, fractionText fraction ++ text) :=
    readWhole_append hwhole hzero (noDigit_fractionText hdigit)
  have hsecond := readFraction_append hfraction hdigit hpoint
  simp only [readDecimal, hfirst, hsecond, hexponent, Option.bind_eq_bind, Option.bind_some]

/-! ### What is written is read -/

/-- The text of a positive number does not begin with a zero. -/
theorem head?_repr_ne_zero {n : ℕ} (h : 0 < n) : n.repr.toList.head? ≠ some '0' := by
  rw [Nat.toList_repr]
  induction n using Nat.strong_induction_on with
  | _ n ih =>
    rcases Nat.lt_or_ge n 10 with hsmall | hlarge
    · rw [Nat.toDigits_of_lt_base hsmall]
      intro hzero
      have hall : ∀ d < 10, 0 < d → d.digitChar ≠ '0' := by decide
      exact hall n hsmall h (Option.some.inj hzero)
    · have hquotient : 0 < n / 10 := Nat.div_pos hlarge (by decide)
      have hsplit : Nat.toDigits 10 n = Nat.toDigits 10 (n / 10) ++ Nat.toDigits 10 (n % 10) := by
        rw [Nat.toDigits_append_toDigits (by decide) hquotient (Nat.mod_lt n (by decide)),
          Nat.div_add_mod]
      rw [hsplit, List.head?_append_of_ne_nil _ Nat.toDigits_ne_nil]
      exact ih (n / 10) (by omega) hquotient

private theorem digits_zero : Digits ['0'] := by decide

private theorem all_isDigit_replicate_zero (n : ℕ) : (List.replicate n '0').all Char.isDigit := by
  rw [List.all_eq_true]
  intro c hc
  rw [List.eq_of_mem_replicate hc]
  decide

/-- **Digits with an exponent are read back as digits of the same number.** -/
theorem readDecimal_decimalText {digits : ℕ} (hpos : 0 < digits) (exponent : ℤ)
    (h : NumberEnds rest) :
    ∃ digits' exponent', readDecimal (decimalText digits exponent ++ rest) =
      some ((digits', exponent'), rest) ∧ ofDecimal digits' exponent' = ofDecimal digits exponent := by
  have hall : digits.repr.toList.all Char.isDigit := (digits_repr digits).2
  have hhead := head?_repr_ne_zero hpos
  have hvalue := digitsValue_repr digits
  have hlength : 0 < digits.repr.toList.length := List.length_pos_iff.mpr (digits_repr digits).1
  have hpoint : ∀ c ∈ rest.head?, c ≠ '.' := fun c hc => (h c hc).2.1
  rw [decimalText]
  generalize digits.repr.toList = text at *
  have htake : ∀ n, 0 < n → Digits (text.take n) ∧ (text.take n).head? = text.head? := by
    intro n hn
    refine ⟨⟨?_, ?_⟩, ?_⟩
    · rw [Ne, List.take_eq_nil_iff]
      rintro (rfl | rfl)
      · exact absurd hn (lt_irrefl 0)
      · exact absurd hlength (lt_irrefl 0)
    · exact List.all_eq_true.mpr fun c hc => List.all_eq_true.mp hall c (List.mem_of_mem_take hc)
    · rw [List.head?_take, if_neg hn.ne']
  have hdrop : ∀ n, (text.drop n).all Char.isDigit := fun n =>
    List.all_eq_true.mpr fun c hc => List.all_eq_true.mp hall c (List.mem_of_mem_drop hc)
  split
  · next hwhole =>
    -- All digits stand before the point, with zeros behind them.
    have hexponent : (exponent.toNat : ℤ) = exponent := Int.toNat_of_nonneg hwhole.1
    have hdigits : Digits (text ++ List.replicate exponent.toNat '0') := by
      refine ⟨fun hnil => ?_, ?_⟩
      · rw [(List.append_eq_nil_iff.mp hnil).1] at hlength
        exact absurd hlength (lt_irrefl 0)
      · rw [List.all_append, hall, all_isDigit_replicate_zero]
        rfl
    have hzero : (text ++ List.replicate exponent.toNat '0').head? ≠ some '0' := by
      rw [List.head?_append_of_ne_nil _ (List.length_pos_iff.mp hlength)]
      exact hhead
    refine ⟨_, _, readDecimal_append (show [].all Char.isDigit from rfl) hdigits
      (fun h0 => absurd h0 hzero) h.noDigit hpoint (readExponent_of_absent h), ?_⟩
    rw [List.append_nil, digitsValue_append, List.length_replicate, digitsValue_replicate_zero,
      hvalue, Nat.add_zero, Nat.mul_comm]
    have hmul := ofDecimal_mul_pow digits exponent.toNat
    rwa [hexponent] at hmul
  split
  · next hinside =>
    obtain ⟨hwhole, hwholeHead⟩ := htake (exponent + text.length).toNat (by omega)
    rw [List.append_assoc]
    refine ⟨_, _, readDecimal_append (hdrop _) hwhole
      (fun h0 => absurd (hwholeHead ▸ h0) hhead) h.noDigit hpoint (readExponent_of_absent h), ?_⟩
    have hscale : (0 : ℤ) - (text.drop (exponent + text.length).toNat).length = exponent := by
      rw [List.length_drop]
      omega
    rw [List.take_append_drop, hvalue, hscale]
  split
  · next hbefore =>
    have hfraction :
        (List.replicate (-(exponent + text.length)).toNat '0' ++ text).all Char.isDigit := by
      rw [List.all_append, hall, all_isDigit_replicate_zero]
      rfl
    refine ⟨_, _, readDecimal_append hfraction digits_zero (fun _ => rfl) h.noDigit hpoint
      (readExponent_of_absent h), ?_⟩
    have hscale : (0 : ℤ) -
        (List.replicate (-(exponent + text.length)).toNat '0' ++ text).length = exponent := by
      rw [List.length_append, List.length_replicate]
      omega
    have hzeros : digitsValue (['0'] ++
        (List.replicate (-(exponent + text.length)).toNat '0' ++ text)) = digits := by
      rw [digitsValue_append, digitsValue_append, digitsValue_replicate_zero, hvalue]
      simp [digitsValue, Nat.ofDigitChars_cons]
    rw [hzeros, hscale]
  · obtain ⟨hwhole, hwholeHead⟩ := htake 1 (by decide)
    have hstop : NoDigit (exponentText (exponent + text.length - 1) ++ rest) :=
      noDigit_cons (by decide)
    have hstop' : ∀ c ∈ (exponentText (exponent + text.length - 1) ++ rest).head?, c ≠ '.' := by
      intro c hc
      rw [← Option.some.inj hc]
      decide
    rw [List.append_assoc, List.append_assoc]
    refine ⟨_, _, readDecimal_append (hdrop 1) hwhole
      (fun h0 => absurd (hwholeHead ▸ h0) hhead) hstop hstop' (readExponent_append _ h), ?_⟩
    have hscale : exponent + (text.length : ℤ) - 1 - (text.drop 1).length = exponent := by
      rw [List.length_drop]
      omega
    rw [List.take_append_drop, hvalue, hscale]

theorem readDecimal_magnitudeText {units : ℕ} (hdouble : IsDouble units) (h : NumberEnds rest) :
    ∃ digits exponent, readDecimal (magnitudeText units ++ rest) =
      some ((digits, exponent), rest) ∧ ofDecimal digits exponent = some ⟨units, hdouble⟩ := by
  rw [magnitudeText]
  split
  · next hzero =>
    subst hzero
    refine ⟨_, _, readDecimal_append (show [].all Char.isDigit from rfl) digits_zero (fun _ => rfl)
      h.noDigit (fun c hc => (h c hc).2.1) (readExponent_of_absent h), ?_⟩
    exact ofDecimal_zero _
  · next hne =>
    have hpos := shortestDecimal_pos hdouble (Nat.pos_of_ne_zero hne)
    obtain ⟨digits, exponent, hread, hsame⟩ :=
      readDecimal_decimalText hpos (shortestDecimal units).2 h
    exact ⟨digits, exponent, hread, hsame.trans (ofDecimal_shortestDecimal hdouble)⟩

/-- A number without its sign does not begin with one. -/
theorem readDecimal_minus (text : List Char) : readDecimal ('-' :: text) = none := by
  have hnone : readWhole ('-' :: text) = none := by
    rw [readWhole, List.takeWhile_cons_of_neg (by decide)]
    exact if_neg fun h => h.1 rfl
  rw [readDecimal, hnone]
  rfl

theorem Number.ofMagnitude_natAbs {units : ℤ} (h : IsDouble units.natAbs) :
    Number.ofMagnitude (units < 0) (some ⟨units.natAbs, h⟩) = .finite units h := by
  by_cases hneg : units < 0
  · have hunits : -(units.natAbs : ℤ) = units := by omega
    simp only [Number.ofMagnitude, decide_eq_true_eq, hneg, if_true, Number.finite.injEq]
    exact hunits
  · have hunits : (units.natAbs : ℤ) = units := by omega
    simp only [Number.ofMagnitude, decide_eq_true_eq, hneg, if_false, Number.finite.injEq]
    exact hunits

/-- **A finite number is read back from its text.** -/
theorem readNumber_text {units : ℤ} (hdouble : IsDouble units.natAbs) (h : NumberEnds rest) :
    readNumber ((Number.finite units hdouble).text ++ rest) =
      some (.finite units hdouble, rest) := by
  obtain ⟨digits, exponent, hread, hvalue⟩ := readDecimal_magnitudeText hdouble h
  have hnumber := Number.ofMagnitude_natAbs hdouble
  rw [← hvalue] at hnumber
  rw [Number.text]
  split
  · next hneg =>
    rw [decide_eq_true hneg] at hnumber
    rw [List.cons_append, readNumber, hread, ← hnumber]
    rfl
  · next hnonneg =>
    rw [decide_eq_false hnonneg] at hnumber
    unfold readNumber
    split
    · next text heq =>
      rw [heq, readDecimal_minus] at hread
      cases hread
    · rw [hread, ← hnumber]
      rfl

end Json
