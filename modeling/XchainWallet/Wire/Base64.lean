import Mathlib.Tactic.Ring

/-!
# Base64 texts

Three bytes are four digits of six bits; where one or two bytes are left over, the digits that they
need are followed by `=` up to a multiple of four. `ofBase64` reads as lenient readers do: it skips
white space, it does not ask for the `=`, and it drops the bits that are left over.
-/

namespace Wire

/-- The digits of a base64 text. -/
def base64Digits : List Char :=
  ['A', 'B', 'C', 'D', 'E', 'F', 'G', 'H', 'I', 'J', 'K', 'L', 'M', 'N', 'O', 'P', 'Q', 'R', 'S',
    'T', 'U', 'V', 'W', 'X', 'Y', 'Z', 'a', 'b', 'c', 'd', 'e', 'f', 'g', 'h', 'i', 'j', 'k', 'l',
    'm', 'n', 'o', 'p', 'q', 'r', 's', 't', 'u', 'v', 'w', 'x', 'y', 'z', '0', '1', '2', '3', '4',
    '5', '6', '7', '8', '9', '+', '/']

/-- The digit of a number below 64. -/
def base64Digit (n : ℕ) : Char := base64Digits.getD n 'A'

/-- The number of a digit. -/
def base64Value? (c : Char) : Option ℕ := base64Digits.idxOf? c

/-- White space of ASCII. -/
def isAsciiSpace (c : Char) : Bool := c ∈ ['\t', '\n', '\x0c', '\r', ' ']

/-! ### Bytes in groups of six bits -/

/-- The bits of some bytes in groups of six; the last group is filled up with zeros. -/
def sextets : List UInt8 → List ℕ
  | a :: b :: c :: rest =>
    a.toNat / 4 :: (a.toNat % 4 * 16 + b.toNat / 16) :: (b.toNat % 16 * 4 + c.toNat / 64) ::
      c.toNat % 64 :: sextets rest
  | [a, b] => [a.toNat / 4, a.toNat % 4 * 16 + b.toNat / 16, b.toNat % 16 * 4]
  | [a] => [a.toNat / 4, a.toNat % 4 * 16]
  | [] => []

/-- The bytes of groups of six bits; bits that make up no byte are dropped. -/
def ofSextets : List ℕ → List UInt8
  | p :: q :: r :: s :: rest =>
    UInt8.ofNat (p * 4 + q / 16) :: UInt8.ofNat (q % 16 * 16 + r / 4) ::
      UInt8.ofNat (r % 4 * 64 + s) :: ofSextets rest
  | [p, q, r] => [UInt8.ofNat (p * 4 + q / 16), UInt8.ofNat (q % 16 * 16 + r / 4)]
  | [p, q] => [UInt8.ofNat (p * 4 + q / 16)]
  | _ => []

variable (bytes : List UInt8)

theorem sextets_lt : ∀ n ∈ sextets bytes, n < 64 := by
  induction bytes using sextets.induct with
  | case1 a b c rest ih =>
    have ha : a.toNat < 256 := a.toNat_lt
    have hb : b.toNat < 256 := b.toNat_lt
    have hc : c.toNat < 256 := c.toNat_lt
    simp only [sextets, List.forall_mem_cons]
    exact ⟨by omega, by omega, by omega, by omega, ih⟩
  | case2 a b =>
    have ha : a.toNat < 256 := a.toNat_lt
    have hb : b.toNat < 256 := b.toNat_lt
    simp only [sextets, List.forall_mem_cons]
    exact ⟨by omega, by omega, by omega, by simp⟩
  | case3 a =>
    have ha : a.toNat < 256 := a.toNat_lt
    simp only [sextets, List.forall_mem_cons]
    exact ⟨by omega, by omega, by simp⟩
  | case4 => simp [sextets]

/-- No text has one digit more than a multiple of four. -/
theorem length_sextets_mod : (sextets bytes).length % 4 ≠ 1 := by
  induction bytes using sextets.induct with
  | case1 a b c rest ih =>
    simp only [sextets, List.length_cons]
    omega
  | case2 a b | case3 a | case4 => simp [sextets]

/-- The byte that a number is, where it is one. -/
private theorem ofNat_eq {n : ℕ} {b : UInt8} (h : n = b.toNat) : UInt8.ofNat n = b := by
  rw [h]
  exact UInt8.ofNat_toNat

theorem ofSextets_sextets : ofSextets (sextets bytes) = bytes := by
  induction bytes using sextets.induct with
  | case1 a b c rest ih =>
    have ha : a.toNat < 256 := a.toNat_lt
    have hb : b.toNat < 256 := b.toNat_lt
    have hc : c.toNat < 256 := c.toNat_lt
    rw [sextets, ofSextets, ih, ofNat_eq (by omega : _ = a.toNat), ofNat_eq (by omega : _ = b.toNat),
      ofNat_eq (by omega : _ = c.toNat)]
  | case2 a b =>
    have ha : a.toNat < 256 := a.toNat_lt
    have hb : b.toNat < 256 := b.toNat_lt
    rw [sextets, ofSextets, ofNat_eq (by omega : _ = a.toNat), ofNat_eq (by omega : _ = b.toNat)]
  | case3 a =>
    have ha : a.toNat < 256 := a.toNat_lt
    rw [sextets, ofSextets, ofNat_eq (by omega : _ = a.toNat)]
  | case4 => rfl

/-! ### Texts -/

/-- The text of some bytes. -/
def base64Of (bytes : List UInt8) : List Char :=
  let digits := (sextets bytes).map base64Digit
  digits ++ List.replicate ((4 - digits.length % 4) % 4) '='

/-- A text of whole groups without one or two `=` at its end. -/
def unpadded (text : List Char) : List Char :=
  if text.length % 4 = 0 then
    if ['=', '='].isSuffixOf text then text.dropLast.dropLast
    else if ['='].isSuffixOf text then text.dropLast
    else text
  else text

/-- The bytes of a text, as a lenient reader has them. -/
def ofBase64 (text : List Char) : Option (List UInt8) :=
  let data := unpadded (text.filter fun c => !isAsciiSpace c)
  if data.length % 4 = 1 then none else (data.mapM base64Value?).map ofSextets

private theorem base64Digit_read (n : Fin 64) : base64Value? (base64Digit n) = some n.val ∧
    base64Digit n ≠ '=' ∧ isAsciiSpace (base64Digit n) = false := by
  revert n
  decide

/-- The characters of a text are digits or `=`. -/
theorem mem_base64Of {bytes : List UInt8} {c : Char} (h : c ∈ base64Of bytes) :
    c ∈ base64Digits ∨ c = '=' := by
  rcases List.mem_append.mp h with hc | hc
  · obtain ⟨n, hn, rfl⟩ := List.mem_map.mp hc
    have hlt : n < base64Digits.length := sextets_lt bytes n hn
    rw [base64Digit, List.getD_eq_getElem?_getD, List.getElem?_eq_getElem hlt]
    exact .inl (List.getElem_mem hlt)
  · exact .inr (List.eq_of_mem_replicate hc)

theorem base64Of_ne_nil {bytes : List UInt8} (h : bytes ≠ []) : base64Of bytes ≠ [] := by
  cases bytes with
  | nil => exact absurd rfl h
  | cons a rest =>
    have hne : sextets (a :: rest) ≠ [] := by
      match rest with
      | [] => simp [sextets]
      | [b] => simp [sextets]
      | b :: c :: rest => simp [sextets]
    simp [base64Of, hne]

/-- What was put at the end of the digits is taken off again. -/
private theorem unpadded_append {digits : List Char} (hpad : ('=' : Char) ∉ digits)
    (hlength : digits.length % 4 ≠ 1) :
    unpadded (digits ++ List.replicate ((4 - digits.length % 4) % 4) '=') = digits := by
  have hone : ¬['='] <:+ digits := fun h => hpad (h.subset (by simp))
  have htwo : ¬['=', '='] <:+ digits := fun h => hpad (h.subset (by simp))
  have hmod : digits.length % 4 = 0 ∨ digits.length % 4 = 2 ∨ digits.length % 4 = 3 := by omega
  rcases hmod with hmod | hmod | hmod
  · rw [hmod]
    simp [unpadded, hmod, hone, htwo]
  · rw [hmod]
    have hwhole : (digits ++ ['=', '=']).length % 4 = 0 := by
      rw [List.length_append]
      simp only [List.length_cons, List.length_nil]
      omega
    have hdrop : (digits ++ ['=', '=']).dropLast.dropLast = digits := by
      rw [List.dropLast_append_cons]
      simp
    change unpadded (digits ++ ['=', '=']) = digits
    rw [unpadded, if_pos hwhole, if_pos (by simp), hdrop]
  · rw [hmod]
    have hwhole : (digits ++ ['=']).length % 4 = 0 := by
      rw [List.length_append]
      simp only [List.length_cons, List.length_nil]
      omega
    have hnot : ¬['=', '='].isSuffixOf (digits ++ ['=']) := by
      rw [List.isSuffixOf_iff_suffix]
      rintro ⟨front, hfront⟩
      have heq : front ++ ['='] = digits := by
        have hsame : (front ++ ['=']) ++ ['='] = digits ++ ['='] := by
          rw [List.append_assoc]
          exact hfront
        exact List.append_cancel_right hsame
      exact hone ⟨front, heq⟩
    change unpadded (digits ++ ['=']) = digits
    rw [unpadded, if_pos hwhole, if_neg hnot, if_pos (by simp), List.dropLast_concat]

/-- **What is written as a base64 text is read back.** -/
theorem ofBase64_base64Of : ofBase64 (base64Of bytes) = some bytes := by
  have hdigit : ∀ n ∈ sextets bytes, base64Value? (base64Digit n) = some n ∧
      base64Digit n ≠ '=' ∧ isAsciiSpace (base64Digit n) = false := fun n hn =>
    base64Digit_read ⟨n, sextets_lt bytes n hn⟩
  have hfilter : (base64Of bytes).filter (fun c => !isAsciiSpace c) = base64Of bytes := by
    rw [List.filter_eq_self]
    intro c hc
    rcases List.mem_append.mp hc with hc | hc
    · obtain ⟨n, hn, rfl⟩ := List.mem_map.mp hc
      rw [(hdigit n hn).2.2]
      rfl
    · rw [List.eq_of_mem_replicate hc]
      decide
  have hpad : ('=' : Char) ∉ (sextets bytes).map base64Digit := by
    rintro hmem
    obtain ⟨n, hn, heq⟩ := List.mem_map.mp hmem
    exact (hdigit n hn).2.1 heq
  have hlength : ((sextets bytes).map base64Digit).length % 4 ≠ 1 := by
    rw [List.length_map]
    exact length_sextets_mod bytes
  have hunpadded : unpadded (base64Of bytes) = (sextets bytes).map base64Digit :=
    unpadded_append hpad hlength
  have hread : ∀ groups : List ℕ, (∀ n ∈ groups, base64Value? (base64Digit n) = some n) →
      (groups.map base64Digit).mapM base64Value? = some groups := by
    intro groups hgroups
    induction groups with
    | nil => rfl
    | cons n groups ih =>
      rw [List.map_cons, List.mapM_cons, hgroups n (.head _),
        ih fun m hm => hgroups m (.tail _ hm)]
      rfl
  rw [ofBase64, hfilter, hunpadded, if_neg hlength, hread _ fun n hn => (hdigit n hn).1,
    Option.map_some, ofSextets_sextets]

end Wire
