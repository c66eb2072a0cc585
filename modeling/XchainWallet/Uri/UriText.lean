import XchainWallet.Js.Text
import XchainWallet.Wire.Bytes

/-!
# The text of a URI

A parser of URIs cuts a text at the first of a character, splits it at every one, and decodes what
it has cut out. `decodeURIComponent` reads `%XX` as an octet, anything else as itself, and joins the
octets to characters as UTF-8 writes them; it throws on an octet that is out of place, on a longer
form than needed and on a code point that is no character.

A scheme is compared in lower case. `exists_of_isPrefixOf_lower` gives the part of the text itself
that stands for it, which has as many characters.
-/

namespace XchainWallet

open Wire

/-- `toLowerCase()`. -/
def jsLowerText (text : List Char) : List Char := text.flatMap jsLower

/-- `toUpperCase()`. -/
def jsUpperText (text : List Char) : List Char := text.flatMap jsUpper

/-- The text before the first `c`, all of it where there is none. -/
def beforeFirst (c : Char) (text : List Char) : List Char := text.takeWhile (· ≠ c)

/-- The text behind the first `c`, the empty one where there is none. -/
def afterFirst (c : Char) (text : List Char) : List Char := (text.dropWhile (· ≠ c)).drop 1

/-- `split('/').filter(Boolean)`. -/
def pathSegments (text : List Char) : List (List Char) := (text.splitOn '/').filter (· ≠ [])

/-! ### Percent-decoding -/

/-- What stands in an encoded text: a character for itself, or an octet as `%XX`. -/
inductive UriUnit where
  | char (c : Char)
  | octet (b : ℕ)
deriving DecidableEq

/-- The units of a text, and `none` where a `%` is not followed by two hex digits. -/
def uriUnits : List Char → Option (List UriUnit)
  | [] => some []
  | '%' :: high :: low :: rest => do
    let octet := 16 * (← hexValue? high) + (← hexValue? low)
    let units ← uriUnits rest
    some (.octet octet :: units)
  | c :: rest => if c = '%' then none else (UriUnit.char c :: ·) <$> uriUnits rest

/-- A character of which some octets are still to come: how many, what the ones before them make,
and the least code point that takes so many. -/
structure Utf8Pending where
  owed : ℕ
  value : ℕ
  least : ℕ
deriving DecidableEq

/-- What the first octet of several announces. -/
def utf8Leading (b : ℕ) : Option Utf8Pending :=
  if b < 0xC0 then none
  else if b < 0xE0 then some ⟨1, b - 0xC0, 0x80⟩
  else if b < 0xF0 then some ⟨2, b - 0xE0, 0x800⟩
  else if b < 0xF8 then some ⟨3, b - 0xF0, 0x10000⟩
  else none

/-- The characters that the units make, the first of them perhaps begun. -/
def joinUnits : Option Utf8Pending → List UriUnit → Option (List Char)
  | none, [] => some []
  | some _, [] => none
  | none, .char c :: rest => (c :: ·) <$> joinUnits none rest
  | some _, .char _ :: _ => none
  | none, .octet b :: rest =>
    if b < 0x80 then (Char.ofNat b :: ·) <$> joinUnits none rest
    else
      match utf8Leading b with
      | some pending => joinUnits (some pending) rest
      | none => none
  | some pending, .octet b :: rest =>
    let value := 64 * pending.value + (b - 0x80)
    if b < 0x80 ∨ 0xC0 ≤ b then none
    else if pending.owed = 1 then
      -- A surrogate is no code point of a character, and neither is one past the last.
      if pending.least ≤ value ∧ value.isValidChar then
        (Char.ofNat value :: ·) <$> joinUnits none rest
      else none
    else joinUnits (some ⟨pending.owed - 1, value, pending.least⟩) rest

/-- `decodeURIComponent(text)`, and `none` where it throws. -/
def decodeURIComponent (text : List Char) : Option (List Char) :=
  (uriUnits text).bind (joinUnits none)

example : decodeURIComponent "a%E2%82%ac%20%7E+".toList = some "a€ ~+".toList ∧
    decodeURIComponent "%C0%AF".toList = none ∧ decodeURIComponent "%ED%A0%80".toList = none ∧
    decodeURIComponent "100%".toList = none := by
  decide

/-! ### Cutting a text -/

theorem eq_beforeFirst_append {c : Char} {text : List Char} (h : c ∈ text) :
    text = beforeFirst c text ++ c :: afterFirst c text := by
  induction text with
  | nil => cases h
  | cons d text ih =>
    by_cases hd : d = c
    · subst hd
      simp [beforeFirst, afterFirst]
    · have hmem : c ∈ text := (List.mem_cons.mp h).resolve_left fun hc => hd hc.symm
      have hbefore : beforeFirst c (d :: text) = d :: beforeFirst c text := by
        simp [beforeFirst, hd]
      have hafter : afterFirst c (d :: text) = afterFirst c text := by simp [afterFirst, hd]
      rw [hbefore, hafter, List.cons_append, ← ih hmem]

theorem afterFirst_append {c : Char} {part : List Char} (h : c ∉ part) (rest : List Char) :
    afterFirst c (part ++ rest) = afterFirst c rest := by
  rw [afterFirst, List.dropWhile_append_of_pos, afterFirst]
  intro d hd
  rw [decide_eq_true_eq]
  rintro rfl
  exact h hd

/-! ### Letters in lower case -/

theorem mem_jsLowerText {c : Char} {text : List Char} (h : c ∈ text) (hlower : jsLower c = [c]) :
    c ∈ jsLowerText text := by
  rw [jsLowerText, List.mem_flatMap]
  exact ⟨c, h, by simp [hlower]⟩

theorem jsLower_ne_nil (c : Char) : jsLower c ≠ [] := by
  unfold jsLower
  split <;> exact List.cons_ne_nil _ _

/-- A character has one in lower case, but for the one whose lower case has two. -/
theorem jsLower_eq_cons {c d : Char} {ds : List Char} (h : jsLower c = d :: ds) :
    ds = [] ∨ d = 'i' ∧ ds = ['\u0307'] := by
  unfold jsLower at h
  split at h
  · exact .inl (List.cons.inj h).2.symm
  · right
    obtain ⟨hd, hds⟩ := List.cons.inj h
    exact ⟨hd.symm, hds.symm⟩
  · exact .inl (List.cons.inj h).2.symm

/-- **The part of a text that stands for a prefix of its lower case.** The prefix must be one that
no character with two in lower case can be part of. -/
theorem exists_of_isPrefixOf_lower {text : List Char} (letters : List Char)
    (h : letters.isPrefixOf (jsLowerText text)) (hdot : '\u0307' ∉ letters)
    (hlast : letters.getLast? ≠ some 'i') :
    ∃ part, text = part ++ text.drop letters.length ∧ part.length = letters.length ∧
      jsLowerText part = letters := by
  induction letters generalizing text with
  | nil => exact ⟨[], by simp, rfl, rfl⟩
  | cons letter letters ih =>
    cases text with
    | nil => simp [jsLowerText] at h
    | cons c text =>
      obtain ⟨d, ds, hlower⟩ := List.exists_cons_of_ne_nil (jsLower_ne_nil c)
      rw [jsLowerText, List.flatMap_cons, hlower, List.cons_append, List.isPrefixOf_cons_cons,
        Bool.and_eq_true, beq_iff_eq] at h
      obtain ⟨rfl, h⟩ := h
      obtain rfl | ⟨rfl, rfl⟩ := jsLower_eq_cons hlower
      · have hlast' : letters.getLast? ≠ some 'i' := by
          intro hi
          apply hlast
          rw [List.getLast?_cons, hi, Option.getD_some]
        obtain ⟨part, htext, hlength, hpart⟩ :=
          ih h (fun hmem => hdot (List.mem_cons_of_mem _ hmem)) hlast'
        refine ⟨c :: part, ?_, ?_, ?_⟩
        · rw [List.length_cons, List.drop_succ_cons, List.cons_append, ← htext]
        · rw [List.length_cons, List.length_cons, hlength]
        · rw [jsLowerText, List.flatMap_cons, hlower, ← jsLowerText, hpart]
          rfl
      · -- The dot behind the `i` is neither in the prefix nor behind its end.
        cases letters with
        | nil => exact absurd rfl hlast
        | cons next letters =>
          rw [List.cons_append, List.isPrefixOf_cons_cons, Bool.and_eq_true, beq_iff_eq] at h
          have hmem : '\u0307' ∈ 'i' :: next :: letters := by simp [h.1]
          exact absurd hmem hdot

end XchainWallet
