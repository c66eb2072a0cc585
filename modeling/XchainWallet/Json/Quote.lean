import XchainWallet.Wire.Bytes

/-!
# Strings of 16-bit units and their quoted texts

A string is a list of 16-bit units, two of which make a character beyond the first 65536 where a
high one stands before a low one. `quote` writes a string between quotes: a pair as its character,
a control character, a quote, a backslash and a lone half of a pair as an escape. `readQuoted` is
the grammar of JSON for what stands behind the opening quote.

What is quoted is read back unit by unit (`readQuoted_quote`), lone halves included.
-/

namespace Json

open Wire

/-- The units of a string. -/
abbrev Units := List UInt16

/-- The units of a character. -/
def unitsOfChar (c : Char) : Units :=
  if c.toNat < 0x10000 then [UInt16.ofNat c.toNat]
  else
    [UInt16.ofNat (0xD800 + (c.toNat - 0x10000) / 0x400),
      UInt16.ofNat (0xDC00 + (c.toNat - 0x10000) % 0x400)]

/-- The units of a text. -/
def unitsOf (text : List Char) : Units := text.flatMap unitsOfChar

/-- The first half of a pair. -/
def isHigh (u : UInt16) : Bool := 0xD800 ≤ u.toNat ∧ u.toNat < 0xDC00

/-- The second half of a pair. -/
def isLow (u : UInt16) : Bool := 0xDC00 ≤ u.toNat ∧ u.toNat < 0xE000

/-- The character of a pair. -/
def pairChar (high low : UInt16) : Char :=
  Char.ofNat (0x10000 + (high.toNat - 0xD800) * 0x400 + (low.toNat - 0xDC00))

theorem toNat_lt_or_gt (c : Char) : c.toNat < 0xD800 ∨ 0xDFFF < c.toNat ∧ c.toNat < 0x110000 :=
  c.valid

/-- A character is known by its units, and so is where they end. -/
private theorem unitsOfChar_append_inj {c d : Char} {us vs : Units}
    (h : unitsOfChar c ++ us = unitsOfChar d ++ vs) : c = d ∧ us = vs := by
  have hc := toNat_lt_or_gt c
  have hd := toNat_lt_or_gt d
  have hval : ∀ m n : ℕ, m < 65536 → n < 65536 → UInt16.ofNat m = UInt16.ofNat n → m = n := by
    intro m n hm hn heq
    have hnat := congrArg UInt16.toNat heq
    rwa [UInt16.toNat_ofNat', UInt16.toNat_ofNat', Nat.mod_eq_of_lt hm, Nat.mod_eq_of_lt hn] at hnat
  unfold unitsOfChar at h
  split at h <;> split at h <;>
    simp only [List.cons_append, List.nil_append, List.cons.injEq] at h
  · obtain ⟨hunit, hrest⟩ := h
    exact ⟨Char.toNat_inj.mp (hval _ _ (by omega) (by omega) hunit), hrest⟩
  · have hunit := hval _ _ (by omega) (by omega) h.1
    omega
  · have hunit := hval _ _ (by omega) (by omega) h.1
    omega
  · obtain ⟨hfirst, hsecond, hrest⟩ := h
    have hhigh := hval _ _ (by omega) (by omega) hfirst
    have hlow := hval _ _ (by omega) (by omega) hsecond
    exact ⟨Char.toNat_inj.mp (by omega), hrest⟩

theorem unitsOfChar_ne_nil (c : Char) : unitsOfChar c ≠ [] := by
  unfold unitsOfChar
  split <;> exact List.cons_ne_nil _ _

/-- **Texts with the same units are one text.** -/
theorem unitsOf_injective {a b : List Char} (h : unitsOf a = unitsOf b) : a = b := by
  induction a generalizing b with
  | nil =>
    cases b with
    | nil => rfl
    | cons d b => simp [unitsOf, unitsOfChar_ne_nil] at h
  | cons c a ih =>
    cases b with
    | nil => simp [unitsOf, unitsOfChar_ne_nil] at h
    | cons d b =>
      obtain ⟨rfl, hrest⟩ := unitsOfChar_append_inj h
      rw [ih hrest]

/-! ### Quoting -/

/-- The escapes of one letter. -/
def escapeLetters : List (Char × ℕ) :=
  [('b', 8), ('t', 9), ('n', 10), ('f', 12), ('r', 13), ('"', 34), ('\\', 92)]

/-- An escape of four digits. -/
def hexEscape (n : ℕ) : List Char :=
  ['\\', 'u', hexDigit (n / 4096), hexDigit (n / 256 % 16), hexDigit (n / 16 % 16),
    hexDigit (n % 16)]

/-- A unit that is not half of a pair, or a lone half of one. -/
def quoteUnit (u : UInt16) : List Char :=
  match escapeLetters.find? (·.2 = u.toNat) with
  | some (letter, _) => ['\\', letter]
  | none =>
    if u.toNat < 0x20 ∨ isHigh u ∨ isLow u then hexEscape u.toNat else [Char.ofNat u.toNat]

/-- The text of a string, without the quotes around it. -/
def quote : Units → List Char
  | [] => []
  | [u] => quoteUnit u
  | high :: low :: rest =>
    if isHigh high ∧ isLow low then pairChar high low :: quote rest
    else quoteUnit high ++ quote (low :: rest)

/-! ### Reading -/

/-- The unit of a letter behind a backslash. -/
def unescape (letter : Char) : Option UInt16 :=
  if letter = '/' then some 47
  else (escapeLetters.find? (·.1 = letter)).map fun escape => UInt16.ofNat escape.2

/-- The unit of four digits. -/
def hexUnit (a b c d : Char) : Option UInt16 := do
  let high ← hexValue? a
  let next ← hexValue? b
  let third ← hexValue? c
  let last ← hexValue? d
  some (UInt16.ofNat (4096 * high + 256 * next + 16 * third + last))

/-- The string up to the closing quote, and what follows it. -/
def readQuoted : List Char → Option (Units × List Char)
  | [] => none
  | '"' :: rest => some ([], rest)
  | '\\' :: 'u' :: a :: b :: c :: d :: rest => do
    let unit ← hexUnit a b c d
    let (units, rest) ← readQuoted rest
    some (unit :: units, rest)
  | '\\' :: letter :: rest => do
    let unit ← unescape letter
    let (units, rest) ← readQuoted rest
    some (unit :: units, rest)
  | ['\\'] => none
  | c :: rest =>
    if c.toNat < 0x20 then none
    else do
      let (units, rest) ← readQuoted rest
      some (unitsOfChar c ++ units, rest)

/-! ### What is quoted is read -/

/-- Units in front of what is read. -/
def prepend (units : Units) (read : Option (Units × List Char)) : Option (Units × List Char) :=
  read.map fun p => (units ++ p.1, p.2)

theorem hexUnit_hexEscape {n : ℕ} (h : n < 65536) :
    hexUnit (hexDigit (n / 4096)) (hexDigit (n / 256 % 16)) (hexDigit (n / 16 % 16))
      (hexDigit (n % 16)) = some (UInt16.ofNat n) := by
  have hsum : 4096 * (n / 4096) + 256 * (n / 256 % 16) + 16 * (n / 16 % 16) + n % 16 = n := by
    omega
  rw [hexUnit, hexValue?_hexDigit (by omega), hexValue?_hexDigit (by omega),
    hexValue?_hexDigit (by omega), hexValue?_hexDigit (by omega)]
  simp only [Option.bind_eq_bind, Option.bind_some, hsum]

theorem readQuoted_hexEscape (u : UInt16) (rest : List Char) :
    readQuoted (hexEscape u.toNat ++ rest) = prepend [u] (readQuoted rest) := by
  have hunit := hexUnit_hexEscape u.toNat_lt
  rw [UInt16.ofNat_toNat] at hunit
  rw [hexEscape, List.cons_append, List.cons_append, List.cons_append, List.cons_append,
    List.cons_append, List.cons_append, List.nil_append, readQuoted, hunit]
  cases readQuoted rest <;> rfl

/-- A character that is neither a quote, a backslash nor a control character stands for itself. -/
theorem readQuoted_cons {c : Char} (hquote : c ≠ '"') (hslash : c ≠ '\\') (h : 0x20 ≤ c.toNat)
    (rest : List Char) : readQuoted (c :: rest) = prepend (unitsOfChar c) (readQuoted rest) := by
  rw [readQuoted.eq_def]
  split
  · next heq => cases heq
  · next heq => exact absurd (List.cons.inj heq).1 hquote
  · next heq => exact absurd (List.cons.inj heq).1 hslash
  · next heq => exact absurd (List.cons.inj heq).1 hslash
  · next heq => exact absurd (List.cons.inj heq).1 hslash
  · next heq =>
    obtain ⟨rfl, rfl⟩ := List.cons.inj heq
    rw [if_neg (by omega)]
    cases readQuoted rest <;> rfl

/-- The letter of an escape stands for its unit. -/
theorem readQuoted_letter {escape : Char × ℕ} (h : escape ∈ escapeLetters) (rest : List Char) :
    readQuoted ('\\' :: escape.1 :: rest) =
      prepend [UInt16.ofNat escape.2] (readQuoted rest) := by
  simp only [escapeLetters, List.mem_cons, List.not_mem_nil, or_false] at h
  rcases h with rfl | rfl | rfl | rfl | rfl | rfl | rfl <;>
    cases hrest : readQuoted rest <;> simp [readQuoted, hrest] <;> rfl

private theorem toNat_ofNat_of_isValidChar {n : ℕ} (h : n.isValidChar) :
    (Char.ofNat n).toNat = n := by
  rw [Char.ofNat, dif_pos h]
  rfl

theorem readQuoted_quoteUnit (u : UInt16) (rest : List Char) :
    readQuoted (quoteUnit u ++ rest) = prepend [u] (readQuoted rest) := by
  have hu : u.toNat < 65536 := u.toNat_lt
  rw [quoteUnit]
  cases hfind : escapeLetters.find? (fun escape => decide (escape.2 = u.toNat)) with
  | some escape =>
    have hunit := List.find?_some hfind
    rw [decide_eq_true_eq] at hunit
    have hletter := readQuoted_letter (List.mem_of_find?_eq_some hfind) rest
    rw [hunit, UInt16.ofNat_toNat] at hletter
    exact hletter
  | none =>
    have hnone := List.find?_eq_none.mp hfind
    dsimp only
    split
    · exact readQuoted_hexEscape u rest
    · next hplain =>
      obtain ⟨hcontrol, hhigh, hlow⟩ : ¬u.toNat < 0x20 ∧ ¬isHigh u ∧ ¬isLow u := by
        simpa only [not_or] using hplain
      simp only [isHigh, isLow, decide_eq_true_eq, not_and] at hhigh hlow
      have hvalid : u.toNat.isValidChar := by
        rw [Nat.isValidChar]
        omega
      have hchar : (Char.ofNat u.toNat).toNat = u.toNat := toNat_ofNat_of_isValidChar hvalid
      have hne : ∀ escape ∈ escapeLetters, u.toNat ≠ escape.2 := fun escape hescape h =>
        hnone escape hescape (decide_eq_true h.symm)
      have hquote : u.toNat ≠ 34 := hne ('"', 34) (by decide)
      have hslash : u.toNat ≠ 92 := hne ('\\', 92) (by decide)
      have hread := readQuoted_cons (c := Char.ofNat u.toNat)
        (fun h => hquote (by rw [← hchar, h]; rfl)) (fun h => hslash (by rw [← hchar, h]; rfl))
        (by omega) rest
      rw [unitsOfChar, hchar, if_pos (by omega), UInt16.ofNat_toNat] at hread
      exact hread

/-- The character of a pair has the pair as its units. -/
theorem unitsOfChar_pairChar {high low : UInt16} (hhigh : isHigh high) (hlow : isLow low) :
    unitsOfChar (pairChar high low) = [high, low] ∧ 0x10000 ≤ (pairChar high low).toNat := by
  simp only [isHigh, isLow, decide_eq_true_eq] at hhigh hlow
  have hvalid : (0x10000 + (high.toNat - 0xD800) * 0x400 + (low.toNat - 0xDC00)).isValidChar := by
    rw [Nat.isValidChar]
    omega
  have hchar : (pairChar high low).toNat =
      0x10000 + (high.toNat - 0xD800) * 0x400 + (low.toNat - 0xDC00) :=
    toNat_ofNat_of_isValidChar hvalid
  refine ⟨?_, by omega⟩
  have hfirst : 0xD800 + ((pairChar high low).toNat - 0x10000) / 0x400 = high.toNat := by omega
  have hsecond : 0xDC00 + ((pairChar high low).toNat - 0x10000) % 0x400 = low.toNat := by omega
  rw [unitsOfChar, if_neg (by omega), hfirst, hsecond, UInt16.ofNat_toNat, UInt16.ofNat_toNat]

theorem prepend_append (us vs : Units) (read : Option (Units × List Char)) :
    prepend us (prepend vs read) = prepend (us ++ vs) read := by
  cases read with
  | none => rfl
  | some p => simp [prepend]

/-- **A string is read back from its quoted text.** -/
theorem readQuoted_quote (units : Units) (rest : List Char) :
    readQuoted (quote units ++ '"' :: rest) = some (units, rest) := by
  have hread : readQuoted (quote units ++ '"' :: rest) =
      prepend units (readQuoted ('"' :: rest)) := by
    induction units using quote.induct with
    | case1 => simp [quote, readQuoted, prepend]
    | case2 u => exact readQuoted_quoteUnit u _
    | case3 high low units hpair ih =>
      obtain ⟨hunits, hlarge⟩ := unitsOfChar_pairChar hpair.1 hpair.2
      have hne : ∀ c : Char, c.toNat < 0x10000 → pairChar high low ≠ c := by
        rintro c hc rfl
        omega
      rw [quote, if_pos hpair, List.cons_append, readQuoted_cons (hne _ (by decide))
        (hne _ (by decide)) (by omega), hunits, ih, prepend_append]
      rfl
    | case4 high low units hpair ih =>
      rw [quote, if_neg hpair, List.append_assoc, readQuoted_quoteUnit, ih, prepend_append]
      rfl
  rw [hread, readQuoted, prepend, Option.map_some, List.append_nil]

end Json
