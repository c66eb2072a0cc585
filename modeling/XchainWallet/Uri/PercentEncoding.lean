import XchainWallet.Uri.UriText

/-!
# Percent-encoding

`encodeURIComponent` keeps the letters, the digits and a few marks, and writes every other character
as the octets of its UTF-8 form, `%XX` each. What it writes is made of kept characters and `%`
alone, so a text of several encoded parts can be cut at any other character, and
`decodeURIComponent` reads back every text (`decodeURIComponent_encodeURIComponent`).
-/

namespace XchainWallet

open Wire

/-! ### Encoding -/

/-- The octets of the UTF-8 form of a character. -/
def utf8Octets (c : Char) : List ℕ :=
  let n := c.toNat
  if n < 0x80 then [n]
  else if n < 0x800 then [0xC0 + n / 64, 0x80 + n % 64]
  else if n < 0x10000 then [0xE0 + n / 4096, 0x80 + n / 64 % 64, 0x80 + n % 64]
  else [0xF0 + n / 262144, 0x80 + n / 4096 % 64, 0x80 + n / 64 % 64, 0x80 + n % 64]

/-- An octet as `%XX`. -/
def percentOctet (b : ℕ) : List Char :=
  ['%', (hexDigit (b / 16)).toUpper, (hexDigit (b % 16)).toUpper]

/-- A character as it is where it is kept, else as its octets. -/
def percentEncodeChar (keep : Char → Bool) (c : Char) : List Char :=
  if keep c then [c] else (utf8Octets c).flatMap percentOctet

/-- The characters that `encodeURIComponent` keeps. -/
def isUriUnreserved (c : Char) : Bool := c.isAlphanum || c ∈ "-_.!~*'()".toList

/-- `encodeURIComponent(text)`. -/
def encodeURIComponent (text : List Char) : List Char :=
  text.flatMap (percentEncodeChar isUriUnreserved)

/-- `encodeRfc3986Component(value)`. -/
def encodeRfc3986Component (value : List Char) : List Char :=
  (encodeURIComponent value).flatMap fun c =>
    if c ∈ "!'()*".toList then percentOctet c.toNat else [c]

example : encodeURIComponent "a€ (𝄞)".toList = "a%E2%82%AC%20(%F0%9D%84%9E)".toList ∧
    encodeRfc3986Component "it's".toList = "it%27s".toList := by
  decide

/-! ### Octets and their characters -/

/-- What stands for a character in an encoded text. -/
def charUnits (keep : Char → Bool) (c : Char) : List UriUnit :=
  if keep c then [.char c] else (utf8Octets c).map .octet

theorem char_toNat_lt (c : Char) : c.toNat < 0x110000 := by
  rcases c.valid with h | h
  · exact Nat.lt_trans h (by decide)
  · exact h.2

theorem utf8Octets_lt {c : Char} {b : ℕ} (h : b ∈ utf8Octets c) : b < 256 := by
  have hc := char_toNat_lt c
  simp only [utf8Octets] at h
  split_ifs at h <;> simp only [List.mem_cons, List.not_mem_nil, or_false] at h <;> omega

theorem uriUnits_percentOctet {b : ℕ} (h : b < 256) (rest : List Char) :
    uriUnits (percentOctet b ++ rest) = (uriUnits rest).map (.octet b :: ·) := by
  have hdigit : ∀ n : Fin 16, hexValue? (hexDigit n).toUpper = some n.val := by decide
  have hhigh := hdigit ⟨b / 16, by omega⟩
  have hlow := hdigit ⟨b % 16, by omega⟩
  dsimp only at hhigh hlow
  have hbyte : 16 * (b / 16) + b % 16 = b := Nat.div_add_mod b 16
  rw [percentOctet, List.cons_append, List.cons_append, List.cons_append, List.nil_append, uriUnits,
    hhigh, hlow]
  simp only [Option.bind_eq_bind, Option.bind_some, hbyte]
  cases uriUnits rest <;> rfl

theorem uriUnits_percentOctets {bs : List ℕ} (h : ∀ b ∈ bs, b < 256) (rest : List Char) :
    uriUnits (bs.flatMap percentOctet ++ rest) =
      (uriUnits rest).map (bs.map UriUnit.octet ++ ·) := by
  induction bs with
  | nil => simp
  | cons b bs ih =>
    rw [List.flatMap_cons, List.append_assoc, uriUnits_percentOctet (h b (.head _)),
      ih fun b' hb' => h b' (.tail _ hb'), Option.map_map]
    rfl

theorem uriUnits_percentEncodeChar {keep : Char → Bool} {c : Char} (hkeep : keep c → c ≠ '%')
    (rest : List Char) :
    uriUnits (percentEncodeChar keep c ++ rest) = (uriUnits rest).map (charUnits keep c ++ ·) := by
  unfold percentEncodeChar charUnits
  split_ifs with hc
  · rw [List.singleton_append, uriUnits, if_neg (hkeep hc)]
    · rfl
    · intro _ _ _ hpercent
      exact absurd hpercent (hkeep hc)
  · exact uriUnits_percentOctets (fun b hb => utf8Octets_lt hb) rest

/-- The octets of a character make that character. -/
theorem joinUnits_utf8Octets (c : Char) (rest : List UriUnit) :
    joinUnits none ((utf8Octets c).map .octet ++ rest) = (joinUnits none rest).map (c :: ·) := by
  have hc := char_toNat_lt c
  have hvalid : c.toNat.isValidChar := c.valid
  have hback : Char.ofNat c.toNat = c := Char.ofNat_toNat c
  unfold utf8Octets
  dsimp only
  split_ifs with h1 h2 h3
  · simp only [List.map_cons, List.map_nil, List.singleton_append, joinUnits, if_pos h1, hback]
    rfl
  · have hlead : utf8Leading (0xC0 + c.toNat / 64) = some ⟨1, c.toNat / 64, 0x80⟩ := by
      rw [utf8Leading, if_neg (by omega), if_pos (by omega), Nat.add_sub_cancel_left]
    have hvalue : 64 * (c.toNat / 64) + (0x80 + c.toNat % 64 - 0x80) = c.toNat := by omega
    have hhigh : ¬0xC0 + c.toNat / 64 < 0x80 := by omega
    have htail : ¬(0x80 + c.toNat % 64 < 0x80 ∨ 0xC0 ≤ 0x80 + c.toNat % 64) := by omega
    simp only [List.map_cons, List.map_nil, List.cons_append, List.nil_append, joinUnits,
      if_neg hhigh, hlead, if_neg htail, if_true, hvalue]
    rw [if_pos ⟨by omega, hvalid⟩, hback]
    rfl
  · have hlead : utf8Leading (0xE0 + c.toNat / 4096) = some ⟨2, c.toNat / 4096, 0x800⟩ := by
      rw [utf8Leading, if_neg (by omega), if_neg (by omega), if_pos (by omega),
        Nat.add_sub_cancel_left]
    have hmid : 64 * (c.toNat / 4096) + (0x80 + c.toNat / 64 % 64 - 0x80) = c.toNat / 64 := by
      omega
    have hvalue : 64 * (c.toNat / 64) + (0x80 + c.toNat % 64 - 0x80) = c.toNat := by omega
    have hhigh : ¬0xE0 + c.toNat / 4096 < 0x80 := by omega
    have hnext : ¬(0x80 + c.toNat / 64 % 64 < 0x80 ∨ 0xC0 ≤ 0x80 + c.toNat / 64 % 64) := by omega
    have htail : ¬(0x80 + c.toNat % 64 < 0x80 ∨ 0xC0 ≤ 0x80 + c.toNat % 64) := by omega
    simp only [List.map_cons, List.map_nil, List.cons_append, List.nil_append, joinUnits,
      if_neg hhigh, hlead, if_neg hnext, if_neg htail, hmid, hvalue]
    rw [if_neg (by decide), if_pos trivial, if_pos ⟨by omega, hvalid⟩, hback]
    rfl
  · have hlead : utf8Leading (0xF0 + c.toNat / 262144) = some ⟨3, c.toNat / 262144, 0x10000⟩ := by
      rw [utf8Leading, if_neg (by omega), if_neg (by omega), if_neg (by omega), if_pos (by omega),
        Nat.add_sub_cancel_left]
    have hfirst : 64 * (c.toNat / 262144) + (0x80 + c.toNat / 4096 % 64 - 0x80) =
        c.toNat / 4096 := by
      omega
    have hmid : 64 * (c.toNat / 4096) + (0x80 + c.toNat / 64 % 64 - 0x80) = c.toNat / 64 := by
      omega
    have hvalue : 64 * (c.toNat / 64) + (0x80 + c.toNat % 64 - 0x80) = c.toNat := by omega
    have hhigh : ¬0xF0 + c.toNat / 262144 < 0x80 := by omega
    have hsecond : ¬(0x80 + c.toNat / 4096 % 64 < 0x80 ∨ 0xC0 ≤ 0x80 + c.toNat / 4096 % 64) := by
      omega
    have hnext : ¬(0x80 + c.toNat / 64 % 64 < 0x80 ∨ 0xC0 ≤ 0x80 + c.toNat / 64 % 64) := by omega
    have htail : ¬(0x80 + c.toNat % 64 < 0x80 ∨ 0xC0 ≤ 0x80 + c.toNat % 64) := by omega
    simp only [List.map_cons, List.map_nil, List.cons_append, List.nil_append, joinUnits,
      if_neg hhigh, hlead, if_neg hsecond, if_neg hnext, if_neg htail, hfirst, hmid, hvalue]
    rw [if_neg (by decide), if_neg (by decide), if_pos trivial, if_pos ⟨by omega, hvalid⟩, hback]
    rfl

theorem joinUnits_charUnits (keep : Char → Bool) (c : Char) (rest : List UriUnit) :
    joinUnits none (charUnits keep c ++ rest) = (joinUnits none rest).map (c :: ·) := by
  unfold charUnits
  split_ifs
  · rfl
  · exact joinUnits_utf8Octets c rest

/-! ### Reading back -/

/-- **A percent-encoded text is read back**, whatever is kept of it but `%`. -/
theorem decodeURIComponent_flatMap {keep : Char → Bool} (hkeep : ∀ c, keep c → c ≠ '%')
    (text : List Char) :
    decodeURIComponent (text.flatMap (percentEncodeChar keep)) = some text := by
  have hunits : uriUnits (text.flatMap (percentEncodeChar keep)) =
      some (text.flatMap (charUnits keep)) := by
    induction text with
    | nil => rfl
    | cons c text ih =>
      rw [List.flatMap_cons, uriUnits_percentEncodeChar (hkeep c), ih]
      rfl
  have hjoin : joinUnits none (text.flatMap (charUnits keep)) = some text := by
    clear hunits
    induction text with
    | nil => rfl
    | cons c text ih =>
      rw [List.flatMap_cons, joinUnits_charUnits, ih]
      rfl
  rw [decodeURIComponent, hunits]
  exact hjoin

theorem ne_percent_of_isUriUnreserved {c : Char} (h : isUriUnreserved c = true) : c ≠ '%' := by
  rintro rfl
  exact absurd h (by decide)

/-- **What `encodeURIComponent` writes is read back.** -/
theorem decodeURIComponent_encodeURIComponent (text : List Char) :
    decodeURIComponent (encodeURIComponent text) = some text :=
  decodeURIComponent_flatMap (fun _ h => ne_percent_of_isUriUnreserved h) text

/-! ### The characters of an encoded text -/

theorem mem_percentOctet {b : ℕ} {d : Char} (hb : b < 256) (h : d ∈ percentOctet b) :
    d = '%' ∨ d.isAlphanum = true ∧ d ∉ "!'()*".toList := by
  have hdigit : ∀ n : Fin 16, (hexDigit n).toUpper.isAlphanum = true ∧
      (hexDigit n).toUpper ∉ "!'()*".toList := by decide
  simp only [percentOctet, List.mem_cons, List.not_mem_nil, or_false] at h
  rcases h with rfl | rfl | rfl
  · exact .inl rfl
  · exact .inr (hdigit ⟨b / 16, by omega⟩)
  · exact .inr (hdigit ⟨b % 16, by omega⟩)

/-- A character of an encoded one is `%`, a hex digit, or the character itself where it is kept. -/
theorem mem_percentEncodeChar {keep : Char → Bool} {c d : Char} (h : d ∈ percentEncodeChar keep c) :
    (keep c = true ∧ d = c) ∨ d = '%' ∨ d.isAlphanum = true ∧ d ∉ "!'()*".toList := by
  unfold percentEncodeChar at h
  split_ifs at h with hc
  · exact .inl ⟨hc, List.mem_singleton.mp h⟩
  · obtain ⟨b, hb, hd⟩ := List.mem_flatMap.mp h
    exact .inr (mem_percentOctet (utf8Octets_lt hb) hd)

/-- The characters of which encoded texts are made. -/
def isUriEncoded (c : Char) : Bool := isUriUnreserved c || c = '%'

theorem isUriEncoded_of_mem {text : List Char} {d : Char} (h : d ∈ encodeURIComponent text) :
    isUriEncoded d = true := by
  obtain ⟨c, -, hd⟩ := List.mem_flatMap.mp h
  unfold isUriEncoded isUriUnreserved
  rcases mem_percentEncodeChar hd with ⟨hkeep, rfl⟩ | rfl | ⟨halpha, -⟩
  · rw [isUriUnreserved] at hkeep
    rw [hkeep, Bool.true_or]
  · rfl
  · rw [halpha, Bool.true_or, Bool.true_or]

/-- A character beyond the ones that are written does not occur. -/
theorem not_mem_encodeURIComponent {c : Char} (h : isUriEncoded c = false) (text : List Char) :
    c ∉ encodeURIComponent text := by
  intro hmem
  rw [isUriEncoded_of_mem hmem] at h
  exact absurd h (by decide)

/-! ### The stricter encoding -/

/-- The characters that `encodeRfc3986Component` keeps. -/
def isRfc3986Unreserved (c : Char) : Bool := isUriUnreserved c && c ∉ "!'()*".toList

/-- The two passes keep what is in neither set. -/
theorem encodeRfc3986Component_eq (value : List Char) :
    encodeRfc3986Component value = value.flatMap (percentEncodeChar isRfc3986Unreserved) := by
  have hascii : ∀ c ∈ "!'()*".toList, utf8Octets c = [c.toNat] :=
    List.forall_iff_forall_mem.mp (by decide)
  rw [encodeRfc3986Component, encodeURIComponent, List.flatMap_assoc]
  congr 1
  funext c
  rw [percentEncodeChar, percentEncodeChar, isRfc3986Unreserved]
  by_cases hkeep : isUriUnreserved c = true
  · rw [if_pos hkeep, List.flatMap_singleton, hkeep, Bool.true_and]
    by_cases hmark : c ∈ "!'()*".toList
    · rw [if_pos hmark, if_neg (by rw [decide_eq_true_eq]; exact not_not_intro hmark), hascii c hmark, List.flatMap_singleton]
    · rw [if_neg hmark, if_pos (decide_eq_true hmark)]
  · have hplain : ∀ d ∈ (utf8Octets c).flatMap percentOctet, d ∉ "!'()*".toList := by
      intro d hd
      obtain ⟨b, hb, hd⟩ := List.mem_flatMap.mp hd
      rcases mem_percentOctet (utf8Octets_lt hb) hd with rfl | ⟨-, hnot⟩
      · decide
      · exact hnot
    rw [if_neg hkeep, if_neg (by simp [hkeep])]
    generalize (utf8Octets c).flatMap percentOctet = written at hplain
    induction written with
    | nil => rfl
    | cons d written ih =>
      rw [List.flatMap_cons, if_neg (hplain d (.head _)), List.singleton_append,
        ih fun e he => hplain e (.tail _ he)]

theorem decodeURIComponent_encodeRfc3986Component (value : List Char) :
    decodeURIComponent (encodeRfc3986Component value) = some value := by
  rw [encodeRfc3986Component_eq]
  refine decodeURIComponent_flatMap (fun c h => ?_) value
  rw [isRfc3986Unreserved, Bool.and_eq_true] at h
  exact ne_percent_of_isUriUnreserved h.1

theorem not_mem_encodeRfc3986Component {c : Char} (h : isUriEncoded c = false) (value : List Char) :
    c ∉ encodeRfc3986Component value := by
  intro hmem
  obtain ⟨d, hd, hc⟩ := List.mem_flatMap.mp hmem
  split_ifs at hc with hmark
  · have hlt : ∀ d ∈ "!'()*".toList, d.toNat < 256 := by simp
    rw [isUriEncoded, isUriUnreserved, Bool.or_eq_false_iff, Bool.or_eq_false_iff] at h
    rcases mem_percentOctet (hlt d hmark) hc with hpercent | ⟨halpha, -⟩
    · exact of_decide_eq_false h.2 hpercent
    · exact absurd (h.1.1.symm.trans halpha) (by decide)
  · obtain rfl := List.mem_singleton.mp hc
    exact not_mem_encodeURIComponent h value hd

end XchainWallet
