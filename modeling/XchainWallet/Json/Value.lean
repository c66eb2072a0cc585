import XchainWallet.Json.Number
import XchainWallet.Json.Quote
import XchainWallet.Keyed.List

/-!
# Values and their texts

A value is what `JSON.parse` makes: an object is the list of its members in the order in which
their names first stand, and a name that stands again takes the later value. `stringify` writes
a value without white space; a number that is not finite is written as `null`.

The parser recurses on a budget of steps. `readValue_succ` says that the budget of `parse` is enough
for every text: with more of it the answer is the same.
-/

namespace Json

open Option (bind_eq_bind bind_eq_some_iff bind_some some.injEq)
open List (length_cons)

/-- A value. -/
inductive Value where
  | null
  | bool (b : Bool)
  | num (n : Number)
  | str (s : Units)
  | arr (elements : List Value)
  | obj (members : List (Units × Value))

/-! ### Writing -/

/-- A string between quotes. -/
def quoted (s : Units) : List Char := '"' :: quote s ++ ['"']

/-- The text of a number, `null` for one that is not finite. -/
def numberText : Number → List Char
  | .finite units h => (Number.finite units h).text
  | _ => "null".toList

mutual

/-- `JSON.stringify(value)`. -/
def stringify : Value → List Char
  | .null => "null".toList
  | .bool b => if b then "true".toList else "false".toList
  | .num n => numberText n
  | .str s => quoted s
  | .arr [] => "[]".toList
  | .arr (v :: vs) => '[' :: (stringify v ++ elementsText vs)
  | .obj [] => "{}".toList
  | .obj ((key, v) :: members) =>
    '{' :: (quoted key ++ ':' :: (stringify v ++ membersText members))

/-- What stands behind an element: the others, and the bracket. -/
def elementsText : List Value → List Char
  | [] => [']']
  | v :: vs => ',' :: (stringify v ++ elementsText vs)

/-- What stands behind a member: the others, and the brace. -/
def membersText : List (Units × Value) → List Char
  | [] => ['}']
  | (key, v) :: members => ',' :: (quoted key ++ ':' :: (stringify v ++ membersText members))

end

/-! ### Reading -/

/-- White space between tokens. -/
def isSpace (c : Char) : Bool := c = ' ' ∨ c = '\t' ∨ c = '\n' ∨ c = '\r'

/-- The text behind white space. -/
def skipSpace (text : List Char) : List Char := text.dropWhile isSpace

/-- The members of an object, a name that stands again with its last value. -/
def ownMembers (members : List (Units × Value)) : List (Units × Value) :=
  members.foldl (fun own member => Keyed.upsert Prod.fst member own) []

/-- Whether a list goes on, with what stands behind the comma or the closing character. -/
def goesOn (close : Char) (text : List Char) : Option (Bool × List Char) :=
  match skipSpace text with
  | [] => none
  | c :: rest => if c = ',' then some (true, rest) else if c = close then some (false, rest) else none

/-- The name of a member, with what stands behind the colon. -/
def readKey (text : List Char) : Option (Units × List Char) :=
  match skipSpace text with
  | '"' :: rest =>
    match readQuoted rest with
    | none => none
    | some (key, rest) =>
      match skipSpace rest with
      | ':' :: rest => some (key, rest)
      | _ => none
  | _ => none

mutual

/-- A value, with what follows it. -/
def readValue : ℕ → List Char → Option (Value × List Char)
  | 0, _ => none
  | fuel + 1, text =>
    match skipSpace text with
    | 'n' :: 'u' :: 'l' :: 'l' :: rest => some (.null, rest)
    | 't' :: 'r' :: 'u' :: 'e' :: rest => some (.bool true, rest)
    | 'f' :: 'a' :: 'l' :: 's' :: 'e' :: rest => some (.bool false, rest)
    | '"' :: rest => (readQuoted rest).map fun p => (.str p.1, p.2)
    | '[' :: rest =>
      if (skipSpace rest).head? = some ']' then some (.arr [], (skipSpace rest).tail)
      else (readElements fuel rest).map fun p => (.arr p.1, p.2)
    | '{' :: rest =>
      if (skipSpace rest).head? = some '}' then some (.obj [], (skipSpace rest).tail)
      else (readMembers fuel rest).map fun p => (.obj (ownMembers p.1), p.2)
    | text => (readNumber text).map fun p => (.num p.1, p.2)

/-- One or more elements up to the bracket. -/
def readElements : ℕ → List Char → Option (List Value × List Char)
  | 0, _ => none
  | fuel + 1, text => do
    let (v, rest) ← readValue fuel text
    let (more, rest) ← goesOn ']' rest
    if more then
      let (vs, rest) ← readElements fuel rest
      some (v :: vs, rest)
    else some ([v], rest)

/-- One or more members up to the brace. -/
def readMembers : ℕ → List Char → Option (List (Units × Value) × List Char)
  | 0, _ => none
  | fuel + 1, text => do
    let (key, rest) ← readKey text
    let (v, rest) ← readValue fuel rest
    let (more, rest) ← goesOn '}' rest
    if more then
      let (members, rest) ← readMembers fuel rest
      some ((key, v) :: members, rest)
    else some ([(key, v)], rest)

end

/-- `JSON.parse(text)`, and `none` where it throws. -/
def parse (text : List Char) : Option Value := do
  let (v, rest) ← readValue (2 * text.length + 1) text
  if skipSpace rest = [] then some v else none

/-! ### The budget is enough -/

theorem length_skipSpace_le (text : List Char) : (skipSpace text).length ≤ text.length :=
  (List.dropWhile_sublist _).length_le

variable {text rest : List Char}

theorem goesOn_lt {close : Char} {more : Bool} (h : goesOn close text = some (more, rest)) :
    rest.length < text.length := by
  have hle := length_skipSpace_le text
  rw [goesOn] at h
  cases hskip : skipSpace text with
  | nil =>
    rw [hskip] at h
    cases h
  | cons c tail =>
    rw [hskip] at h hle
    rw [length_cons] at hle
    have hrest : rest = tail := by
      dsimp only at h
      split at h
      · exact (congrArg Prod.snd (Option.some.inj h)).symm
      · split at h
        · exact (congrArg Prod.snd (Option.some.inj h)).symm
        · cases h
    rw [hrest]
    omega

theorem readQuoted_lt {s : Units} (h : readQuoted text = some (s, rest)) :
    rest.length < text.length := by
  fun_induction readQuoted text generalizing s with
  | case1 => cases h
  | case2 tail =>
    cases h
    exact Nat.lt_succ_self _
  | case3 a b c d tail ih | case4 letter tail _ ih =>
    simp only [bind_eq_bind, bind_eq_some_iff, some.injEq, Prod.exists,
      Prod.mk.injEq] at h
    obtain ⟨unit, -, units, tail', hread, -, rfl⟩ := h
    have hlt := ih hread
    simp only [length_cons]
    omega
  | case5 | case6 => cases h
  | case7 c tail _ _ _ _ _ ih =>
    simp only [bind_eq_bind, bind_eq_some_iff, some.injEq, Prod.exists,
      Prod.mk.injEq] at h
    obtain ⟨units, tail', hread, -, rfl⟩ := h
    have hlt := ih hread
    rw [length_cons]
    omega

theorem readKey_lt {key : Units} (h : readKey text = some (key, rest)) :
    rest.length < text.length := by
  have hle := length_skipSpace_le text
  unfold readKey at h
  split at h
  · next tail hskip =>
    split at h
    · cases h
    · next key' behind hread =>
      have hlt := readQuoted_lt hread
      have hle' := length_skipSpace_le behind
      split at h
      · next tail' hskip' =>
        cases h
        rw [hskip, length_cons] at hle
        rw [hskip', length_cons] at hle'
        omega
      · cases h
  · cases h

theorem readDigits_le {text digits rest : List Char} (h : readDigits text = some (digits, rest)) :
    rest.length ≤ text.length := by
  unfold readDigits at h
  split at h
  · cases h
  · cases h
    exact (List.dropWhile_sublist _).length_le

theorem readWhole_lt {text digits rest : List Char} (h : readWhole text = some (digits, rest)) :
    rest.length < text.length := by
  unfold readWhole at h
  dsimp only at h
  split at h
  · next hdigits =>
    cases h
    have happend := congrArg List.length
      (List.takeWhile_append_dropWhile (p := Char.isDigit) (l := text))
    have hpos := List.length_pos_iff.mpr hdigits.1
    rw [List.length_append] at happend
    omega
  · cases h

theorem readFraction_le {text digits rest : List Char}
    (h : readFraction text = some (digits, rest)) : rest.length ≤ text.length := by
  unfold readFraction at h
  split at h
  · have hle := readDigits_le h
    rw [length_cons]
    omega
  · cases h
    exact le_refl _

theorem readExponent_le {exponent : ℤ} (h : readExponent text = some (exponent, rest)) :
    rest.length ≤ text.length := by
  unfold readExponent at h
  split at h
  · cases h
    exact le_refl _
  · next c tail =>
    have hsign : (readExponentSign tail).2.length ≤ tail.length := by
      unfold readExponentSign
      split <;> simp
    split at h
    · simp only [bind_eq_bind, bind_eq_some_iff, some.injEq, Prod.exists,
        Prod.mk.injEq] at h
      obtain ⟨digits, tail', hdigits, -, rfl⟩ := h
      have hle := readDigits_le hdigits
      rw [length_cons]
      omega
    · cases h
      exact le_refl _

theorem readDecimal_lt {decimal : ℕ × ℤ} (h : readDecimal text = some (decimal, rest)) :
    rest.length < text.length := by
  simp only [readDecimal, bind_eq_bind, bind_eq_some_iff, some.injEq,
    Prod.exists, Prod.mk.injEq] at h
  obtain ⟨whole, text₁, hwhole, fraction, text₂, hfraction, exponent, text₃, hexponent, -, rfl⟩ := h
  have h₁ := readWhole_lt hwhole
  have h₂ := readFraction_le hfraction
  have h₃ := readExponent_le hexponent
  omega

theorem readNumber_lt {n : Number} (h : readNumber text = some (n, rest)) :
    rest.length < text.length := by
  unfold readNumber at h
  split at h
  · simp only [bind_eq_bind, bind_eq_some_iff, some.injEq, Prod.exists,
      Prod.mk.injEq] at h
    obtain ⟨digits, exponent, tail, hread, -, rfl⟩ := h
    have hlt := readDecimal_lt hread
    rw [length_cons]
    omega
  · simp only [bind_eq_bind, bind_eq_some_iff, some.injEq, Prod.exists,
      Prod.mk.injEq] at h
    obtain ⟨digits, exponent, tail, hread, -, rfl⟩ := h
    exact readDecimal_lt hread

/-- What is read takes at least a character. -/
theorem readValue_lt (fuel : ℕ) :
    (∀ text v rest, readValue fuel text = some (v, rest) → rest.length < text.length) ∧
    (∀ text vs rest, readElements fuel text = some (vs, rest) → rest.length < text.length) ∧
    (∀ text members rest, readMembers fuel text = some (members, rest) →
      rest.length < text.length) := by
  induction fuel with
  | zero =>
    refine ⟨?_, ?_, ?_⟩ <;>
      · intro text read rest h
        cases h
  | succ fuel ih =>
    obtain ⟨hvalue, helements, hmembers⟩ := ih
    refine ⟨fun text v rest h => ?_, fun text vs rest h => ?_, fun text members rest h => ?_⟩
    · have hle := length_skipSpace_le text
      rw [readValue] at h
      split at h
      case h_1 tail hskip | h_2 tail hskip | h_3 tail hskip =>
        cases h
        simp only [hskip, length_cons] at hle
        omega
      case h_4 tail hskip =>
        obtain ⟨p, hread, hsome⟩ := Option.map_eq_some_iff.mp h
        cases hsome
        have hlt := readQuoted_lt hread
        rw [hskip, length_cons] at hle
        omega
      case h_5 tail hskip | h_6 tail hskip =>
        rw [hskip, length_cons] at hle
        have hle' := length_skipSpace_le tail
        split at h
        · cases h
          rw [List.length_tail]
          omega
        · obtain ⟨p, hread, hsome⟩ := Option.map_eq_some_iff.mp h
          cases hsome
          have hlt := by first | exact helements _ _ _ hread | exact hmembers _ _ _ hread
          omega
      · obtain ⟨p, hread, hsome⟩ := Option.map_eq_some_iff.mp h
        cases hsome
        have hlt := readNumber_lt hread
        omega
    · simp only [readElements, bind_eq_bind, bind_eq_some_iff, Prod.exists] at h
      obtain ⟨v, text₁, hread, more, text₂, hmore, h⟩ := h
      have h₁ := hvalue _ _ _ hread
      have h₂ := goesOn_lt hmore
      split at h
      · simp only [bind_eq_some_iff, Prod.exists, some.injEq, Prod.mk.injEq] at h
        obtain ⟨vs', text₃, hrest, -, rfl⟩ := h
        have h₃ := helements _ _ _ hrest
        omega
      · cases h
        omega
    · simp only [readMembers, bind_eq_bind, bind_eq_some_iff, Prod.exists] at h
      obtain ⟨key, text₀, hkey, v, text₁, hread, more, text₂, hmore, h⟩ := h
      have h₀ := readKey_lt hkey
      have h₁ := hvalue _ _ _ hread
      have h₂ := goesOn_lt hmore
      split at h
      · simp only [bind_eq_some_iff, Prod.exists, some.injEq, Prod.mk.injEq] at h
        obtain ⟨members', text₃, hrest, -, rfl⟩ := h
        have h₃ := hmembers _ _ _ hrest
        omega
      · cases h
        omega

/-- **The budget is enough.** One of more than twice the length of the text gives no other answer
with more. -/
theorem readValue_succ (fuel : ℕ) :
    (∀ text : List Char, 2 * text.length < fuel →
      readValue (fuel + 1) text = readValue fuel text) ∧
    (∀ text : List Char, 2 * text.length + 1 < fuel →
      readElements (fuel + 1) text = readElements fuel text) ∧
    (∀ text : List Char, 2 * text.length + 1 < fuel →
      readMembers (fuel + 1) text = readMembers fuel text) := by
  induction fuel with
  | zero =>
    refine ⟨?_, ?_, ?_⟩ <;>
      · intro text h
        exact absurd h (Nat.not_lt_zero _)
  | succ fuel ih =>
    obtain ⟨hvalue, helements, hmembers⟩ := ih
    refine ⟨fun text h => ?_, fun text h => ?_, fun text h => ?_⟩
    · have hle := length_skipSpace_le text
      rw [readValue, readValue]
      split
      case h_5 tail hskip =>
        rw [hskip, length_cons] at hle
        rw [helements tail (by omega)]
      case h_6 tail hskip =>
        rw [hskip, length_cons] at hle
        rw [hmembers tail (by omega)]
      all_goals rfl
    · have hfirst := hvalue text (by omega)
      conv_rhs => rw [readElements]
      rw [readElements, hfirst]
      cases hread : readValue fuel text with
      | none => rfl
      | some p =>
        have hlt := (readValue_lt fuel).1 _ _ _ hread
        simp only [bind_eq_bind, bind_some]
        cases hmore : goesOn ']' p.2 with
        | none => rfl
        | some q =>
          have hlt' := goesOn_lt hmore
          simp only [bind_some]
          rw [helements q.2 (by omega)]
    · conv_rhs => rw [readMembers]
      rw [readMembers]
      cases hkey : readKey text with
      | none => rfl
      | some k =>
        have hlt := readKey_lt hkey
        have hfirst := hvalue k.2 (by omega)
        simp only [bind_eq_bind, bind_some, hfirst]
        cases hread : readValue fuel k.2 with
        | none => rfl
        | some p =>
          have hlt' := (readValue_lt fuel).1 _ _ _ hread
          simp only [bind_some]
          cases hmore : goesOn '}' p.2 with
          | none => rfl
          | some q =>
            have hlt'' := goesOn_lt hmore
            simp only [bind_some]
            rw [hmembers q.2 (by omega)]

/-- Any budget above that of `parse` reads the same. -/
theorem readValue_of_le {text : List Char} {fuel : ℕ} (h : 2 * text.length + 1 ≤ fuel) :
    readValue fuel text = readValue (2 * text.length + 1) text := by
  induction fuel, h using Nat.le_induction with
  | base => rfl
  | succ fuel hle ih =>
    have hsucc := (readValue_succ fuel).1 text (by omega)
    rw [hsucc, ih]

example : (parse "\x7b \"a\" : [1e0, true], \"b\":\"\\u0041\\n\", \"a\":null \x7d".toList).map
    stringify = some "\x7b\"a\":null,\"b\":\"A\\n\"\x7d".toList := by
  decide +kernel

end Json
