import XchainWallet.Shared.DecimalSums
import XchainWallet.Shared.LocaleMarks

/-!
# What is shown is read back

A decimal that is written with the digits, groups and separators of a locale is read as the same
decimal (`normalizeLocalizedDecimal_formatWithThousands`). The two separators have to stay apart
when they are mapped to ASCII marks: the reader takes any mark but a dot, a comma and a space for a
comma, or for a dot in front of the fraction.
-/

namespace XchainWallet

open Decimal

/-- What the number formatter of a platform reports: ten digits of its own or the ASCII ones, and
two separators that are no digits. -/
structure LocaleSyntax.Proper (syn : LocaleSyntax) : Prop where
  digits_injective : Function.Injective syn.digits
  digits_ascii : ∀ i j, syn.digits i = asciiDigit j → i = j
  digits_space : ∀ i, isJsSpace (syn.digits i) = false
  decimal_digit : ∀ i, syn.digits i ≠ syn.decimal
  group_digit : ∀ i, syn.digits i ≠ syn.group
  decimal_ascii : syn.decimal.isDigit = false
  group_ascii : syn.group.isDigit = false
  distinct : syn.decimal ≠ syn.group

/-! ### Characters -/

/-- One digit of the locale is mapped to its ASCII digit. -/
def digitStep (syn : LocaleSyntax) (c : Char) (i : Fin 10) : Char :=
  if c = syn.digits i then asciiDigit i else c

/-- What the reader maps a character to. -/
def normalizeChar (syn : LocaleSyntax) (c : Char) : Char :=
  let ascii := (List.finRange 10).foldl (digitStep syn) c
  let marked := if ascii = syn.decimal then syn.asciiDecimal else ascii
  if marked = syn.group then syn.asciiGroup else marked

theorem foldl_map {f : Char → Fin 10 → Char} (indices : List (Fin 10)) (text : List Char) :
    indices.foldl (fun text i => text.map (f · i)) text = text.map (indices.foldl f) := by
  induction indices generalizing text with
  | nil => exact (List.map_id text).symm
  | cons i indices ih => rw [List.foldl_cons, ih, List.map_map]; rfl

theorem replaceAll_of_eq {a b : Char} (text : List Char) :
    (if a = b then text else replaceAll a b text) = text.map fun c => if c = a then b else c := by
  split
  · next heq =>
    rw [heq]
    refine (List.map_id'' (fun c => ?_) text).symm
    split
    · next hc => exact hc.symm
    · rfl
  · rfl

/-- The reader maps one character after the other. -/
theorem normalizeLocaleNumberCharacters_eq_map (syn : LocaleSyntax) (text : List Char) :
    normalizeLocaleNumberCharacters syn text = text.map (normalizeChar syn) := by
  have hdigits : (fun (text : List Char) i => if syn.digits i = asciiDigit i then text
      else replaceAll (syn.digits i) (asciiDigit i) text) =
        fun text i => text.map (digitStep syn · i) := by
    funext text i
    exact replaceAll_of_eq text
  rw [normalizeLocaleNumberCharacters, hdigits, foldl_map, replaceAll_of_eq, replaceAll_of_eq,
    List.map_map, List.map_map]
  refine List.map_congr_left fun c _ => ?_
  rw [Function.comp_apply, Function.comp_apply, normalizeChar]

section Chars

variable {syn : LocaleSyntax} (hproper : syn.Proper)
include hproper

theorem foldl_digitStep_asciiDigit (indices : List (Fin 10)) (i : Fin 10) :
    indices.foldl (digitStep syn) (asciiDigit i) = asciiDigit i := by
  induction indices with
  | nil => rfl
  | cons j indices ih =>
    rw [List.foldl_cons, digitStep]
    split
    · next heq => rw [hproper.digits_ascii j i heq.symm, ih]
    · exact ih

theorem foldl_digitStep_digit {indices : List (Fin 10)} {i : Fin 10} (h : i ∈ indices) :
    indices.foldl (digitStep syn) (syn.digits i) = asciiDigit i := by
  induction indices with
  | nil => cases h
  | cons j indices ih =>
    rw [List.foldl_cons, digitStep]
    split
    · next heq =>
      rw [← hproper.digits_injective heq]
      exact foldl_digitStep_asciiDigit hproper indices i
    · next hne =>
      rcases List.mem_cons.mp h with rfl | h
      · exact absurd rfl hne
      · exact ih h

omit hproper in
theorem foldl_digitStep_other {indices : List (Fin 10)} {c : Char} (h : ∀ i, syn.digits i ≠ c) :
    indices.foldl (digitStep syn) c = c := by
  induction indices with
  | nil => rfl
  | cons j indices ih =>
    rw [List.foldl_cons, digitStep, if_neg (h j).symm]
    exact ih

omit hproper in
theorem asciiDigit_ne {c : Char} (h : c.isDigit = false) (i : Fin 10) : asciiDigit i ≠ c := by
  rintro rfl
  rw [isDigit_asciiDigit] at h
  cases h

/-- A digit of the locale is read as the digit. -/
theorem normalizeChar_digit (i : Fin 10) : normalizeChar syn (syn.digits i) = asciiDigit i := by
  rw [normalizeChar, foldl_digitStep_digit hproper (List.mem_finRange i)]
  rw [if_neg (asciiDigit_ne hproper.decimal_ascii i), if_neg (asciiDigit_ne hproper.group_ascii i)]

theorem normalizeChar_decimal (hmarks : syn.asciiDecimal ≠ syn.asciiGroup) :
    normalizeChar syn syn.decimal = syn.asciiDecimal := by
  rw [normalizeChar, foldl_digitStep_other hproper.decimal_digit]
  rw [if_pos rfl, if_neg]
  -- a group separator that is an ASCII mark stays the mark that it is
  intro heq
  refine hmarks ?_
  rw [LocaleSyntax.asciiGroup, if_pos, heq]
  rw [← heq, LocaleSyntax.asciiDecimal]
  split
  · exact .inr rfl
  · exact .inl rfl

theorem normalizeChar_group : normalizeChar syn syn.group = syn.asciiGroup := by
  rw [normalizeChar, foldl_digitStep_other hproper.group_digit]
  rw [if_neg hproper.distinct.symm, if_pos rfl]

/-- Digits go through the digits of the locale unchanged. -/
theorem map_normalizeChar_localizeDigits {text : List Char} (h : text.all Char.isDigit) :
    (localizeDigits syn.digits text).map (normalizeChar syn) = text := by
  rw [localizeDigits, List.map_map]
  refine (List.map_congr_left fun c hc => ?_).trans (List.map_id text)
  have hdigit := List.all_eq_true.mp h c hc
  obtain ⟨i, rfl⟩ := exists_asciiDigit hdigit
  rw [Function.comp_apply, if_pos hdigit, digitIndex_asciiDigit, normalizeChar_digit hproper, id]

end Chars

/-! ### What is shown -/

/-- The fraction of a decimal behind a mark, where it has one. -/
def markedFraction (mark : Char) (p : Plain) : List Char :=
  if p.frac = [] then [] else mark :: p.frac

theorem expandDecimalNotation_plain {text : List Char} {p : Plain}
    (h : Plain.parse text = some p) : expandDecimalNotation text = text := by
  obtain ⟨hchars, c, rest, rfl, hc⟩ := plain_chars h
  have htrim : jsTrim (c :: rest) = c :: rest := by
    refine jsTrim_eq_self _ fun d hd => ?_
    rcases hchars d hd with hd | rfl
    · exact isJsSpace_of_isDigit hd
    · decide
  have hsign : (c :: rest).span (· ∈ ['+', '-']) = ([], c :: rest) := by
    have hnot : c ∉ ['+', '-'] := by
      intro hmem
      simp only [List.mem_cons, List.not_mem_nil, or_false] at hmem
      rcases hmem with rfl | rfl
      · exact absurd hc (by decide)
      · exact absurd hc (by decide)
    rw [List.span_eq_takeWhile_dropWhile, List.takeWhile_cons_of_neg (by simpa using hnot),
      List.dropWhile_cons_of_neg (by simpa using hnot)]
  rw [expandDecimalNotation, htrim]
  simp only [hsign, h]
  rfl

/-- A plain decimal is written in groups, with the mark of the locale before its fraction. -/
theorem formatWithThousands_plain (syn : LocaleSyntax) {text : List Char} {p : Plain}
    (h : Plain.parse text = some p) :
    formatWithThousands syn text = localizeDigits syn.digits
      ([syn.group].intercalate (groupedParts syn.secondary p.whole.length syn.primary p.whole) ++
        markedFraction syn.decimal p) := by
  obtain ⟨hwhole, hrest⟩ := Plain.parse_eq_some.mp h
  have hpoint : ∀ c ∈ p.whole, c ≠ '.' := by
    rintro c hc rfl
    exact absurd (List.all_eq_true.mp hwhole.2 _ hc) (by decide)
  obtain ⟨-, c, rest, htext, hc⟩ := plain_chars h
  have hsign : text.head? ≠ some '-' := by
    rw [htext]
    rintro heq
    rw [Option.some.inj heq] at hc
    exact absurd hc (by decide)
  have hparts : text.takeWhile (· ≠ '.') = p.whole ∧ (if text.dropWhile (· ≠ '.') = [] then []
        else syn.decimal :: (text.dropWhile (· ≠ '.')).tail) = markedFraction syn.decimal p := by
    have htake : p.whole.takeWhile (· ≠ '.') = p.whole :=
      List.takeWhile_eq_self_iff.mpr fun c hc => decide_eq_true (hpoint c hc)
    have hdrop : p.whole.dropWhile (· ≠ '.') = [] :=
      List.dropWhile_eq_nil_iff.mpr fun c hc => decide_eq_true (hpoint c hc)
    rcases hrest with ⟨hfrac, rfl⟩ | ⟨hfrac, rfl⟩
    · rw [htake, hdrop, markedFraction, if_pos rfl, if_pos hfrac]
      exact ⟨rfl, rfl⟩
    · rw [List.takeWhile_append_of_pos fun c hc => decide_eq_true (hpoint c hc),
        List.dropWhile_append_of_pos fun c hc => decide_eq_true (hpoint c hc),
        List.takeWhile_cons_of_neg (by decide), List.dropWhile_cons_of_neg (by decide),
        List.append_nil, markedFraction, if_neg hfrac.1, if_neg (List.cons_ne_nil _ _)]
      exact ⟨rfl, rfl⟩
  have hne : text ≠ [] := by
    rw [htext]
    exact List.cons_ne_nil _ _
  rw [formatWithThousands, if_neg hne, expandDecimalNotation_plain h]
  simp only [if_neg hsign, decide_eq_false hsign, hparts.1, hparts.2]
  rw [if_neg (fun hnot => hnot.1 hwhole), localizeDigits, localizeDigits, localizeDigits,
    List.map_append]
  rfl

/-! ### The round trip -/

section RoundTrip

variable {syn : LocaleSyntax} (hproper : syn.Proper) {parts : List (List Char)} {p : Plain}
include hproper

omit hproper in
theorem localizeDigits_separator {c : Char} (hc : c.isDigit = false) :
    (if c.isDigit then syn.digits (digitIndex c) else c) = c := by
  rw [hc]
  rfl

/-- What is shown is mapped to the same groups with ASCII marks. -/
theorem normalize_shown (hmarks : syn.asciiDecimal ≠ syn.asciiGroup)
    (hparts : ∀ part ∈ parts, Digits part) (hfrac : p.frac.all Char.isDigit) :
    normalizeLocaleNumberCharacters syn (localizeDigits syn.digits
      ([syn.group].intercalate parts ++ markedFraction syn.decimal p)) =
        [syn.asciiGroup].intercalate parts ++ markedFraction syn.asciiDecimal p := by
  have hint : (localizeDigits syn.digits ([syn.group].intercalate parts)).map (normalizeChar syn) =
      [syn.asciiGroup].intercalate parts := by
    have hsame : (parts.map (List.map fun c =>
        if c.isDigit then syn.digits (digitIndex c) else c)).map (List.map (normalizeChar syn)) =
          parts := by
      rw [List.map_map]
      refine (List.map_congr_left fun part hpart => ?_).trans (List.map_id parts)
      exact map_normalizeChar_localizeDigits hproper (hparts part hpart).2
    rw [localizeDigits, map_marked, map_marked, hsame,
      localizeDigits_separator hproper.group_ascii, normalizeChar_group hproper]
  have hfraction : (localizeDigits syn.digits (markedFraction syn.decimal p)).map
      (normalizeChar syn) = markedFraction syn.asciiDecimal p := by
    rw [markedFraction, markedFraction]
    split
    · rfl
    · have hdigits := map_normalizeChar_localizeDigits hproper hfrac
      rw [localizeDigits] at hdigits ⊢
      rw [List.map_cons, List.map_cons, hdigits, localizeDigits_separator hproper.decimal_ascii,
        normalizeChar_decimal hproper hmarks]
  rw [normalizeLocaleNumberCharacters_eq_map, localizeDigits, List.map_append, List.map_append]
  exact congrArg₂ (· ++ ·) hint hfraction

/-- What is shown begins and ends with a digit of the locale. -/
theorem jsTrim_shown (hparts : ∀ part ∈ parts, Digits part) (hne : parts ≠ [])
    (hfrac : p.frac.all Char.isDigit) :
    jsTrim (localizeDigits syn.digits ([syn.group].intercalate parts ++
      markedFraction syn.decimal p)) = localizeDigits syn.digits
        ([syn.group].intercalate parts ++ markedFraction syn.decimal p) := by
  have hspace : ∀ c : Char, c.isDigit →
      isJsSpace (if c.isDigit then syn.digits (digitIndex c) else c) = false := by
    intro c hc
    rw [if_pos hc]
    exact hproper.digits_space _
  obtain ⟨⟨first, hfirst, hfirstDigit⟩, last, hlast, hlastDigit⟩ := ends_marked syn.group hparts hne
  have hintne : [syn.group].intercalate parts ≠ [] := by
    intro hnil
    rw [hnil] at hfirst
    cases hfirst
  refine jsTrim_of_ends (fun c hc => ?_) (fun c hc => ?_)
  · rw [localizeDigits, List.head?_map, List.head?_append_of_ne_nil _ hintne,
      Option.mem_def.mp hfirst, Option.map_some, Option.mem_some_iff] at hc
    rw [← hc]
    exact hspace first hfirstDigit
  · rw [localizeDigits, List.getLast?_map] at hc
    obtain ⟨d, hd, hdigit⟩ : ∃ d, ([syn.group].intercalate parts ++
        markedFraction syn.decimal p).getLast? = some d ∧ d.isDigit := by
      rw [markedFraction]
      split
      · rw [List.append_nil]
        exact ⟨last, hlast, hlastDigit⟩
      · next hnil =>
        obtain ⟨d, ds, hds⟩ := List.exists_cons_of_ne_nil hnil
        rw [List.getLast?_append_of_ne_nil _ (List.cons_ne_nil _ _), hds, List.getLast?_cons_cons,
          ← hds]
        refine ⟨p.frac.getLast hnil, List.getLast?_eq_some_getLast hnil, ?_⟩
        exact List.all_eq_true.mp hfrac _ (List.getLast_mem hnil)
    rw [hd, Option.map_some, Option.mem_some_iff] at hc
    rw [← hc]
    exact hspace d hdigit

omit hproper in
theorem asciiDecimal_eq (syn : LocaleSyntax) : syn.asciiDecimal = '.' ∨ syn.asciiDecimal = ',' := by
  rw [LocaleSyntax.asciiDecimal]
  split
  · exact .inr rfl
  · exact .inl rfl

omit hproper in
theorem asciiGroup_eq (syn : LocaleSyntax) :
    (syn.asciiGroup = '.' ∨ syn.asciiGroup = ',') ∨ syn.asciiGroup = ' ' := by
  rw [LocaleSyntax.asciiGroup]
  split
  · next hmark => exact .inl hmark
  · split
    · exact .inr rfl
    · exact .inl (.inr rfl)

omit hproper in
/-- No spaces are collapsed. -/
theorem collapseSpaces_shown (syn : LocaleSyntax) (hparts : Grouped syn.secondary syn.primary parts)
    (hfrac : p.frac = [] ∨ Digits p.frac) :
    collapseSpaces false ([syn.asciiGroup].intercalate parts ++
      markedFraction syn.asciiDecimal p) =
        [syn.asciiGroup].intercalate parts ++ markedFraction syn.asciiDecimal p := by
  have hmark : syn.asciiGroup = ' ' ∨ isInlineSpace syn.asciiGroup = false := by
    rcases asciiGroup_eq syn with (heq | heq) | heq
    · rw [heq]
      exact .inr rfl
    · rw [heq]
      exact .inr rfl
    · exact .inl heq
  have hpoint : isInlineSpace syn.asciiDecimal = false := by
    rcases asciiDecimal_eq syn with heq | heq <;> rw [heq] <;> rfl
  have hfraction : collapseSpaces false (markedFraction syn.asciiDecimal p) =
      markedFraction syn.asciiDecimal p := by
    rw [markedFraction]
    rcases hfrac with hnil | hdigits
    · rw [if_pos hnil]
      rfl
    · have hcollapse := collapseSpaces_digits hdigits false []
      rw [List.append_nil] at hcollapse
      rw [if_neg hdigits.1, collapseSpaces, hpoint, if_neg (by decide), hcollapse,
        collapseSpaces, List.append_nil]
  rw [collapseSpaces_marked hmark hparts.digits hparts.ne_nil, hfraction]

omit hproper in
/-- Nothing but digits, marks and spaces is shown. -/
theorem shown_allowed (syn : LocaleSyntax) (hparts : ∀ part ∈ parts, Digits part)
    (hfrac : p.frac.all Char.isDigit) :
    ([syn.asciiGroup].intercalate parts ++ markedFraction syn.asciiDecimal p).all
      (fun c => c.isDigit || c ∈ ['.', ','] || isInlineSpace c) := by
  rw [List.all_eq_true]
  intro c hc
  have hchar : c.isDigit ∨ c = syn.asciiGroup ∨ c = syn.asciiDecimal := by
    rcases List.mem_append.mp hc with hc | hc
    · exact (mem_marked hparts hc).imp_right Or.inl
    · rw [markedFraction] at hc
      split at hc
      · cases hc
      · rcases List.mem_cons.mp hc with heq | hc
        · exact .inr (.inr heq)
        · exact .inl (List.all_eq_true.mp hfrac c hc)
  rcases hchar with hdigit | rfl | rfl
  · rw [hdigit]
    rfl
  · rcases asciiGroup_eq syn with (heq | heq) | heq <;> rw [heq] <;> rfl
  · rcases asciiDecimal_eq syn with heq | heq <;> rw [heq] <;> rfl

omit hproper in
/-- The reader finds the decimal again among the ASCII marks. -/
theorem readMarks_shown (hmarks : syn.asciiDecimal ≠ syn.asciiGroup)
    (hspaced : syn.asciiGroup = ' ' → syn.primary = 3 ∧ (syn.secondary = 3 ∨ syn.secondary = 2))
    (hparts : Grouped syn.secondary syn.primary parts) (hfrac : p.frac = [] ∨ Digits p.frac) :
    readMarks syn ([syn.asciiGroup].intercalate parts ++ markedFraction syn.asciiDecimal p) =
      some (parts.flatten ++ markedFraction '.' p) := by
  have hpoint := asciiDecimal_eq syn
  rw [markedFraction, markedFraction]
  by_cases hmem : syn.asciiGroup ∈ [syn.asciiGroup].intercalate parts ∧ syn.asciiGroup ≠ ' '
  · -- a group mark that is no space
    have hmark := (asciiGroup_eq syn).resolve_right hmem.2
    rcases hfrac with hnil | hdigits
    · rw [if_pos hnil, if_pos hnil, List.append_nil, List.append_nil]
      exact readMarks_grouped_whole hmark rfl hmarks.symm hparts hmem.1
    · rw [if_neg hdigits.1, if_neg hdigits.1]
      exact readMarks_grouped_fraction hmark hpoint hmarks rfl hparts hdigits hmem.1
  · -- one group, or spaces between the groups
    have hspace : [syn.asciiGroup].intercalate parts = [' '].intercalate parts ∧
        validGroupedInteger ([' '].intercalate parts) [' '] none := by
      cases hparts with
      | one hfront =>
        rw [List.intercalate_singleton, List.intercalate_singleton]
        exact ⟨rfl, validGroupedInteger_digits space_isDigit hfront⟩
      | @more first last middle hfirst hsize hmiddle hlast hlastSize =>
        have hgroup : syn.asciiGroup = ' ' := by
          by_contra hne
          exact hmem ⟨mark_mem first (by simp), hne⟩
        obtain ⟨hprimary, hsecondary⟩ := hspaced hgroup
        rw [hgroup]
        rw [hprimary] at hlastSize
        exact ⟨rfl, validGroupedInteger_marked space_isDigit (List.mem_singleton_self ' ')
          hsecondary (.more hfirst hsize hmiddle hlast hlastSize)⟩
    rw [hspace.1]
    rcases hfrac with hnil | hdigits
    · rw [if_pos hnil, if_pos hnil, List.append_nil, List.append_nil]
      exact readMarks_spaced_whole hparts
    · rw [if_neg hdigits.1, if_neg hdigits.1]
      exact readMarks_spaced_fraction hpoint hmarks hparts.digits hdigits hspace.2

end RoundTrip

/-- **What is shown is read back.** -/
theorem normalizeLocalizedDecimal_formatWithThousands {syn : LocaleSyntax} (hproper : syn.Proper)
    (hmarks : syn.asciiDecimal ≠ syn.asciiGroup)
    (hspaced : syn.asciiGroup = ' ' → syn.primary = 3 ∧ (syn.secondary = 3 ∨ syn.secondary = 2))
    {text : List Char} {p : Plain} (h : Plain.parse text = some p) :
    normalizeLocalizedDecimal syn (formatWithThousands syn text) = some text := by
  obtain ⟨hwhole, hrest⟩ := Plain.parse_eq_some.mp h
  have hfrac : p.frac = [] ∨ Digits p.frac := hrest.imp And.left And.left
  have hfracAll : p.frac.all Char.isDigit := by
    rcases hfrac with hnil | hdigits
    · rw [hnil]
      rfl
    · exact hdigits.2
  have htext : p.whole ++ markedFraction '.' p = text := by
    rw [markedFraction]
    rcases hrest with ⟨hnil, rfl⟩ | ⟨hdigits, rfl⟩
    · rw [if_pos hnil, List.append_nil]
    · rw [if_neg hdigits.1]
  obtain ⟨hflatten, hparts⟩ :=
    groupedParts_spec syn.secondary_pos syn.primary_pos le_rfl hwhole
  have hshown := formatWithThousands_plain syn h
  generalize groupedParts syn.secondary p.whole.length syn.primary p.whole = parts at *
  have htrim := jsTrim_shown hproper hparts.digits hparts.ne_nil hfracAll
  have hnormalize := normalize_shown hproper hmarks hparts.digits hfracAll
  have hne : formatWithThousands syn text ≠ [] := by
    intro hnil
    rw [hshown, localizeDigits, List.map_eq_nil_iff, List.append_eq_nil_iff] at hnil
    obtain ⟨⟨c, hc, -⟩, -⟩ := ends_marked syn.group hparts.digits hparts.ne_nil
    rw [hnil.1] at hc
    cases hc
  rw [← hshown] at htrim hnormalize
  rw [normalizeLocalizedDecimal, htrim, if_neg hne, hnormalize]
  have hread := readMarks_shown hmarks hspaced hparts hfrac
  rw [hflatten, htext] at hread
  refine (if_pos (shown_allowed syn hparts.digits hfracAll)).trans ?_
  rw [collapseSpaces_shown syn hparts hfrac, hread]

/-- A locale with a comma before the fraction and dots between the groups. -/
private def commaSyntax : LocaleSyntax where
  decimal := ','
  group := '.'
  digits := asciiDigit
  primary := 3
  secondary := 3
  primary_pos := Nat.succ_pos 2
  secondary_pos := Nat.succ_pos 2

private theorem commaSyntax_proper : commaSyntax.Proper where
  digits_injective := by
    have hall : ∀ i j : Fin 10, asciiDigit i = asciiDigit j → i = j := by decide
    exact fun i j h => hall i j h
  digits_ascii := by
    have hall : ∀ i j : Fin 10, asciiDigit i = asciiDigit j → i = j := by decide
    exact hall
  digits_space i := isJsSpace_of_isDigit (isDigit_asciiDigit i)
  decimal_digit i := asciiDigit_ne rfl i
  group_digit i := asciiDigit_ne rfl i
  decimal_ascii := rfl
  group_ascii := rfl
  distinct := by decide

theorem normalizeLocalizedDecimal_formatWithThousands_comma :
    normalizeLocalizedDecimal commaSyntax (formatWithThousands commaSyntax "1234567.891".toList) =
      some "1234567.891".toList :=
  normalizeLocalizedDecimal_formatWithThousands commaSyntax_proper (by decide)
    (fun h => absurd h (by decide))
    (show Plain.parse _ = some ⟨"1234567".toList, "891".toList⟩ by decide)

/-- A locale with an apostrophe between the groups, which is read as a comma. -/
private def apostropheSyntax : LocaleSyntax := { commaSyntax with group := '\'' }

/-- A locale with spaces between groups of four. -/
private def spaceSyntax : LocaleSyntax where
  decimal := '.'
  group := ' '
  digits := asciiDigit
  primary := 4
  secondary := 4
  primary_pos := Nat.succ_pos 3
  secondary_pos := Nat.succ_pos 3

/-- A minus is shown and not read, an apostrophe is taken for the comma before the fraction, and
groups of four before a fraction are not read. -/
theorem not_normalizeLocalizedDecimal_formatWithThousands :
    (IsCanonical "-5".toList ∧
      normalizeLocalizedDecimal commaSyntax (formatWithThousands commaSyntax "-5".toList) =
        none) ∧
      normalizeLocalizedDecimal apostropheSyntax
        (formatWithThousands apostropheSyntax "1234.567".toList) = some "1234567".toList ∧
      normalizeLocalizedDecimal spaceSyntax (formatWithThousands spaceSyntax "12345.5".toList) =
        none := by
  refine ⟨⟨?_, by decide⟩, by decide, by decide⟩
  have hcanonical := isCanonical_fromScaled (-5) 0
  have htext : fromScaled (-5) 0 = "-5".toList := by decide
  rwa [htext] at hcanonical

end XchainWallet
