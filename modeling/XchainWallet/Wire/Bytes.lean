import Mathlib.Data.List.Basic
import Mathlib.Tactic.Ring

/-!
# Numbers and hex texts as bytes

`leBytes k n` are the `k` low bytes of `n`, the lowest first, and `leNat` reads bytes so. A hex
text has two digits for each byte; `ofHex` reads digits of either case, `hexOf` writes lower case.
-/

namespace Wire

/-! ### Little-endian numbers -/

/-- The `k` low bytes of a number, the lowest first. -/
def leBytes : ℕ → ℕ → List UInt8
  | 0, _ => []
  | k + 1, n => UInt8.ofNat n :: leBytes k (n / 256)

/-- The number of some bytes, the lowest first. -/
def leNat : List UInt8 → ℕ
  | [] => 0
  | b :: bs => b.toNat + 256 * leNat bs

@[simp]
theorem length_leBytes (k n : ℕ) : (leBytes k n).length = k := by
  induction k generalizing n with
  | zero => rfl
  | succ k ih => rw [leBytes, List.length_cons, ih]

theorem leNat_lt (bs : List UInt8) : leNat bs < 256 ^ bs.length := by
  induction bs with
  | nil => exact Nat.one_pos
  | cons b bs ih =>
    have hb : b.toNat < 256 := b.toNat_lt
    rw [leNat, List.length_cons, pow_succ]
    omega

theorem leNat_leBytes (k n : ℕ) : leNat (leBytes k n) = n % 256 ^ k := by
  induction k generalizing n with
  | zero => rw [leBytes, leNat, pow_zero, Nat.mod_one]
  | succ k ih =>
    have hbyte : (UInt8.ofNat n).toNat = n % 256 := UInt8.toNat_ofNat'
    rw [leBytes, leNat, ih, hbyte, pow_succ', Nat.mod_mul]

theorem leNat_leBytes_of_lt {k n : ℕ} (h : n < 256 ^ k) : leNat (leBytes k n) = n := by
  rw [leNat_leBytes, Nat.mod_eq_of_lt h]

theorem leBytes_leNat (bs : List UInt8) : leBytes bs.length (leNat bs) = bs := by
  induction bs with
  | nil => rfl
  | cons b bs ih =>
    have hb : b.toNat < 256 := b.toNat_lt
    have hdiv : (b.toNat + 256 * leNat bs) / 256 = leNat bs := by omega
    have hlow : UInt8.ofNat (b.toNat + 256 * leNat bs) = b := by
      rw [← UInt8.toNat_inj, UInt8.toNat_ofNat', Nat.add_mul_mod_self_left]
      exact Nat.mod_eq_of_lt hb
    rw [leNat, List.length_cons, leBytes, hdiv, ih, hlow]

/-- Bytes of a given number are the bytes of a number that they can hold. -/
theorem exists_leBytes {k : ℕ} {bs : List UInt8} (h : bs.length = k) :
    leNat bs < 256 ^ k ∧ bs = leBytes k (leNat bs) := by
  subst h
  exact ⟨leNat_lt bs, (leBytes_leNat bs).symm⟩

/-! ### Hex texts -/

/-- The digits of a hex text. -/
def hexDigits : List Char :=
  ['0', '1', '2', '3', '4', '5', '6', '7', '8', '9', 'a', 'b', 'c', 'd', 'e', 'f']

/-- The digit of a number below 16. -/
def hexDigit (n : ℕ) : Char := hexDigits.getD n '0'

/-- The number of a digit, of either case. -/
def hexValue? (c : Char) : Option ℕ := hexDigits.idxOf? c.toLower

/-- The two digits of each byte. -/
def hexOf (bytes : List UInt8) : List Char :=
  bytes.flatMap fun b => [hexDigit (b.toNat / 16), hexDigit (b.toNat % 16)]

/-- The bytes of a text of digits, two for each. -/
def ofHex : List Char → Option (List UInt8)
  | [] => some []
  | [_] => none
  | high :: low :: rest => do
    let h ← hexValue? high
    let l ← hexValue? low
    let bytes ← ofHex rest
    pure (UInt8.ofNat (16 * h + l) :: bytes)

theorem hexValue?_hexDigit {n : ℕ} (h : n < 16) : hexValue? (hexDigit n) = some n := by
  have hall : ∀ m : Fin 16, hexValue? (hexDigit m) = some m.val := by decide
  exact hall ⟨n, h⟩

theorem hexDigit_of_hexValue? {c : Char} {n : ℕ} (h : hexValue? c = some n) :
    n < 16 ∧ c.toLower = hexDigit n := by
  obtain ⟨hlt, hget, -⟩ := List.idxOf?_eq_some_iff.mp h
  refine ⟨hlt, ?_⟩
  rw [hexDigit, List.getD_eq_getElem?_getD, List.getElem?_eq_getElem hlt]
  exact hget.symm

theorem hexOf_cons (b : UInt8) (bytes : List UInt8) :
    hexOf (b :: bytes) = hexDigit (b.toNat / 16) :: hexDigit (b.toNat % 16) :: hexOf bytes := rfl

@[simp]
theorem length_hexOf (bytes : List UInt8) : (hexOf bytes).length = 2 * bytes.length := by
  induction bytes with
  | nil => rfl
  | cons b bytes ih =>
    rw [hexOf_cons, List.length_cons, List.length_cons, List.length_cons, ih]
    ring

/-- What is written as a hex text is read back. -/
@[simp]
theorem ofHex_hexOf (bytes : List UInt8) : ofHex (hexOf bytes) = some bytes := by
  induction bytes with
  | nil => rfl
  | cons b bytes ih =>
    have hb : b.toNat < 256 := b.toNat_lt
    have hbyte : UInt8.ofNat (16 * (b.toNat / 16) + b.toNat % 16) = b := by
      rw [Nat.div_add_mod]
      exact UInt8.ofNat_toNat
    rw [hexOf_cons, ofHex, hexValue?_hexDigit (by omega), hexValue?_hexDigit (by omega), ih]
    exact congrArg (fun b => some (b :: bytes)) hbyte

/-- Upper-case digits are read back too. -/
theorem ofHex_map_toUpper (bytes : List UInt8) :
    ofHex ((hexOf bytes).map Char.toUpper) = some bytes := by
  have hdigit : ∀ n : Fin 16, hexValue? (hexDigit n).toUpper = some n.val := by decide
  induction bytes with
  | nil => rfl
  | cons b bytes ih =>
    have hb : b.toNat < 256 := b.toNat_lt
    have hhigh := hdigit ⟨b.toNat / 16, by omega⟩
    have hlow := hdigit ⟨b.toNat % 16, by omega⟩
    have hbyte : UInt8.ofNat (16 * (b.toNat / 16) + b.toNat % 16) = b := by
      rw [Nat.div_add_mod]
      exact UInt8.ofNat_toNat
    rw [hexOf_cons, List.map_cons, List.map_cons, ofHex, hhigh, hlow, ih]
    exact congrArg (fun b => some (b :: bytes)) hbyte

theorem hexOf_append (a b : List UInt8) : hexOf (a ++ b) = hexOf a ++ hexOf b := by
  rw [hexOf, List.flatMap_append]
  rfl

theorem mem_hexDigits_of_mem_hexOf {bytes : List UInt8} {c : Char} (h : c ∈ hexOf bytes) :
    c ∈ hexDigits := by
  obtain ⟨b, -, hc⟩ := List.mem_flatMap.mp h
  have hb : b.toNat < 256 := b.toNat_lt
  have hdigit : ∀ n : Fin 16, hexDigit n ∈ hexDigits := by decide
  rcases List.mem_pair.mp hc with rfl | rfl
  · exact hdigit ⟨b.toNat / 16, by omega⟩
  · exact hdigit ⟨b.toNat % 16, by omega⟩

theorem hexOf_injective {a b : List UInt8} (h : hexOf a = hexOf b) : a = b := by
  have hbytes := congrArg ofHex h
  rw [ofHex_hexOf, ofHex_hexOf] at hbytes
  exact Option.some.inj hbytes

/-- A text that is read spells its bytes, up to the case of its letters. -/
theorem hexOf_of_ofHex {text : List Char} {bytes : List UInt8} (h : ofHex text = some bytes) :
    hexOf bytes = text.map Char.toLower := by
  induction text using ofHex.induct generalizing bytes with
  | case1 =>
    obtain ⟨⟩ := h
    rfl
  | case2 c => exact nomatch h
  | case3 high low rest ih =>
    simp only [ofHex, Option.bind_eq_bind, Option.bind_eq_some_iff, Option.pure_def,
      Option.some.injEq] at h
    obtain ⟨m, hm, n, hn, bytes, hbytes, rfl⟩ := h
    obtain ⟨hm', hhigh⟩ := hexDigit_of_hexValue? hm
    obtain ⟨hn', hlow⟩ := hexDigit_of_hexValue? hn
    have hbyte : (UInt8.ofNat (16 * m + n)).toNat = 16 * m + n := by
      rw [UInt8.toNat_ofNat']
      omega
    have hdiv : (16 * m + n) / 16 = m := by omega
    have hmod : (16 * m + n) % 16 = n := by omega
    rw [hexOf_cons, hbyte, hdiv, hmod, ih hbytes, List.map_cons, List.map_cons, hhigh, hlow]

end Wire
