import Mathlib.Data.Rat.Floor

/-!
# Values as a script reads them

A field of a record that comes over the wire has no type. The code reads it in one of three
ways: as a string only (`typeof v === 'string'`), through `String(v)`, or through `Number(v)`.
`JsField` carries the first two, `JsNumber` the third. `jsTrim` and `startsWithNoCase` are the
operations on texts that the code applies to them.
-/

namespace XchainWallet

/-- A field: a string, or anything else, of which the code sees only what `String` shows. -/
inductive JsField where
  | text (s : String)
  | other (shown : String)
  deriving DecidableEq

namespace JsField

/-- `String(v)`. -/
def shown : JsField → String
  | text s => s
  | other s => s

/-- The string, where the field is one. -/
def text? : JsField → Option String
  | text s => some s
  | other _ => none

/-- The string, where the field is a nonempty one. -/
def nonempty? (field : JsField) : Option String := field.text?.filter (· ≠ "")

theorem text?_eq_some {field : JsField} {s : String} : field.text? = some s ↔ field = text s := by
  cases field <;> simp [text?]

end JsField

/-- `Number(v)`, and `none` where that is not finite. -/
abbrev JsNumber := Option ℚ

/-- White space and line terminators of the language. -/
def isJsSpace (c : Char) : Bool :=
  c.toNat ∈ [0x09, 0x0A, 0x0B, 0x0C, 0x0D, 0x20, 0xA0, 0x1680, 0x2028, 0x2029, 0x202F, 0x205F,
    0x3000, 0xFEFF] ∨ (0x2000 ≤ c.toNat ∧ c.toNat ≤ 0x200A)

/-- `trim()` on the characters of a text. -/
def jsTrim (text : List Char) : List Char :=
  ((text.dropWhile isJsSpace).reverse.dropWhile isJsSpace).reverse

/-- The letters of a text in lower case. -/
def lowerCase (s : String) : String := String.ofList (s.toList.map Char.toLower)

/-- The letters of a text in upper case. -/
def upperCase (s : String) : String := String.ofList (s.toList.map Char.toUpper)

/-- The text begins with the given letters, in either case. -/
def startsWithNoCase (letters text : String) : Bool :=
  (text.toList.take letters.length).map Char.toLower = letters.toList.map Char.toLower

/-- `length` of a text: a character beyond the first 65536 counts for two. -/
def jsLength (text : List Char) : ℕ := (text.map fun c => if 0xFFFF < c.toNat then 2 else 1).sum

/-- The characters that `.` does not match in a pattern. -/
def isLineTerminator (c : Char) : Bool := c.toNat ∈ [0x0A, 0x0D, 0x2028, 0x2029]

/-- `indexOf(part)` on the characters of a text. -/
def indexOf (part text : List Char) : Option ℕ :=
  (List.range (text.length + 1)).find? fun i => part.isPrefixOf (text.drop i)

/-- The characters outside ASCII whose upper case is made of letters of ASCII. -/
def upperToAscii : List (Char × List Char) :=
  [('ß', ['S', 'S']), ('ı', ['I']), ('ſ', ['S']), ('ﬀ', ['F', 'F']), ('ﬁ', ['F', 'I']),
    ('ﬂ', ['F', 'L']), ('ﬃ', ['F', 'F', 'I']), ('ﬄ', ['F', 'F', 'L']), ('ﬅ', ['S', 'T']),
    ('ﬆ', ['S', 'T'])]

/-- `toUpperCase()` of a character. Outside ASCII it is exact as to which characters come to lie in
ASCII; the others stand for what their upper case is. -/
def jsUpper (c : Char) : List Char := (upperToAscii.lookup c).getD [c.toUpper]

/-- `toLowerCase()` of a character. Outside ASCII it is exact as to which characters come to have
letters of ASCII; the others stand for what their lower case is. -/
def jsLower (c : Char) : List Char :=
  match c with
  | '\u212a' => ['k']
  | '\u0130' => ['i', '\u0307']
  | c => [c.toLower]

theorem jsUpper_of_ascii {c : Char} (h : c.toNat < 128) : jsUpper c = [c.toUpper] := by
  have hkeys : ∀ entry ∈ upperToAscii, 128 ≤ entry.1.toNat := by decide
  have hnone : upperToAscii.lookup c = none := by
    rw [List.lookup_eq_none_iff]
    intro entry hentry
    have hkey := hkeys entry hentry
    rw [bne_iff_ne]
    rintro rfl
    omega
  rw [jsUpper, hnone, Option.getD_none]

/-- A digit is no space. -/
theorem isJsSpace_of_isDigit {c : Char} (h : c.isDigit) : isJsSpace c = false := by
  simp only [Char.isDigit, ge_iff_le, Bool.and_eq_true, decide_eq_true_eq] at h
  have hlow : 48 ≤ c.toNat := h.1
  have hhigh : c.toNat ≤ 57 := h.2
  rw [isJsSpace, decide_eq_false_iff_not]
  simp only [List.mem_cons, List.not_mem_nil, or_false]
  omega

theorem dropWhile_isJsSpace {text : List Char} (h : ∀ c ∈ text.head?, isJsSpace c = false) :
    text.dropWhile isJsSpace = text := by
  cases text with
  | nil => rfl
  | cons c text => rw [List.dropWhile_cons_of_neg (by rw [h c rfl]; decide)]

/-- A text that neither begins nor ends with a space is left as it is. -/
theorem jsTrim_of_ends {text : List Char} (hhead : ∀ c ∈ text.head?, isJsSpace c = false)
    (hlast : ∀ c ∈ text.getLast?, isJsSpace c = false) : jsTrim text = text := by
  rw [← List.head?_reverse] at hlast
  rw [jsTrim, dropWhile_isJsSpace hhead, dropWhile_isJsSpace hlast, List.reverse_reverse]

theorem jsTrim_eq_self (text : List Char) (h : ∀ c ∈ text, isJsSpace c = false) :
    jsTrim text = text :=
  jsTrim_of_ends (fun c hc => h c (List.mem_of_mem_head? hc))
    (fun c hc => h c (List.mem_of_mem_getLast? hc))

end XchainWallet
