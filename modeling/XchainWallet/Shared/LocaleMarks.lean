import XchainWallet.Shared.LocaleNumbers

/-!
# Groups of digits and the marks between them

The writer cuts the digits of an integer into groups (`groupedParts_spec`). The reader cuts a text
at its marks, checks the sizes of the groups and takes the marks out. Where the group mark is a
space the only mark is the one before the fraction; where it is a dot or a comma, the last mark is
the decimal mark, or a lone mark is what the locale says it is.
-/

namespace XchainWallet

open Decimal
open List (all_eq_true append_assoc cons_ne_nil intercalate_cons_cons intercalate_singleton
  mem_append mem_cons mem_singleton)

/-! ### Digits -/

theorem isDigit_asciiDigit (i : Fin 10) : (asciiDigit i).isDigit := by
  have hall : ∀ j : Fin 10, (asciiDigit j).isDigit := by decide
  exact hall i

theorem digitIndex_asciiDigit (i : Fin 10) : digitIndex (asciiDigit i) = i := by
  have hall : ∀ j : Fin 10, digitIndex (asciiDigit j) = j := by decide
  exact hall i

theorem exists_asciiDigit {c : Char} (h : c.isDigit) : ∃ i, c = asciiDigit i := by
  have hall : ∀ j : Fin 10, (asciiDigit j).toNat = 48 + j.val := by decide
  rw [Char.isDigit, Bool.and_eq_true, decide_eq_true_eq, decide_eq_true_eq] at h
  have hlow : 48 ≤ c.toNat := h.1
  have hhigh : c.toNat ≤ 57 := h.2
  refine ⟨⟨c.toNat - 48, by omega⟩, Char.toNat_inj.mp ?_⟩
  rw [hall]
  dsimp only
  omega

/-! ### Groups -/

/-- Digits in groups: one group, or a first one, middle ones of the one size and a last one of the
other. -/
inductive Grouped (secondary groupSize : ℕ) : List (List Char) → Prop
  | one {front : List Char} (digits : Digits front) (size : front.length ≤ groupSize) :
      Grouped secondary groupSize [front]
  | more {first last : List Char} {middle : List (List Char)} (digits : Digits first)
      (size : first.length ≤ secondary)
      (middle_digits : ∀ part ∈ middle, Digits part ∧ part.length = secondary)
      (last_digits : Digits last) (last_size : last.length = groupSize) :
      Grouped secondary groupSize (first :: (middle ++ [last]))

theorem groupedParts_spec {secondary : ℕ} (hsecondary : 0 < secondary) {turns groupSize : ℕ}
    {front : List Char} (hsize : 0 < groupSize) (hturns : front.length ≤ turns)
    (hfront : Digits front) :
    (groupedParts secondary turns groupSize front).flatten = front ∧
      Grouped secondary groupSize (groupedParts secondary turns groupSize front) := by
  have hpos := List.length_pos_iff.mpr hfront.1
  induction turns generalizing groupSize front with
  | zero => omega
  | succ turns ih =>
    rw [groupedParts]
    split
    · next hlong =>
      obtain ⟨cut, hcut⟩ : ∃ cut, front.length - groupSize = cut := ⟨_, rfl⟩
      rw [hcut]
      have hlength : (front.take cut).length = cut := by
        rw [List.length_take]
        omega
      have hall := hfront.2
      rw [← List.take_append_drop cut front, List.all_append, Bool.and_eq_true] at hall
      have htake : Digits (front.take cut) := ⟨List.length_pos_iff.mp (by omega), hall.1⟩
      have hlast : (front.drop cut).length = groupSize := by
        rw [List.length_drop]
        omega
      have hdrop : Digits (front.drop cut) := ⟨List.length_pos_iff.mp (by omega), hall.2⟩
      have hfront := ih hsecondary (by omega) htake (by omega)
      generalize groupedParts secondary turns secondary (front.take cut) = parts at hfront ⊢
      obtain ⟨hflatten, hgrouped⟩ := hfront
      constructor
      · rw [List.flatten_append, hflatten, List.flatten_singleton, List.take_append_drop]
      · cases hgrouped with
        | one hdigits hle =>
          exact @Grouped.more secondary groupSize _ _ [] hdigits hle (by simp) hdrop hlast
        | @more first last middle hdigits hle hmiddle hlastDigits hlastSize =>
          rw [List.cons_append]
          refine .more hdigits hle (fun part hpart => ?_) hdrop hlast
          rcases mem_append.mp hpart with hpart | hpart
          · exact hmiddle part hpart
          · rw [mem_singleton.mp hpart]
            exact ⟨hlastDigits, hlastSize⟩
    · next hshort =>
      exact ⟨by rw [List.flatten_singleton], .one hfront (not_lt.mp hshort)⟩

theorem Grouped.digits {secondary groupSize : ℕ} {parts : List (List Char)}
    (h : Grouped secondary groupSize parts) : ∀ part ∈ parts, Digits part := by
  intro part hpart
  cases h with
  | one hdigits =>
    rw [mem_singleton.mp hpart]
    exact hdigits
  | more hdigits _ hmiddle hlast =>
    rcases mem_cons.mp hpart with rfl | hpart
    · exact hdigits
    · rcases mem_append.mp hpart with hpart | hpart
      · exact (hmiddle part hpart).1
      · rw [mem_singleton.mp hpart]
        exact hlast

theorem Grouped.ne_nil {secondary groupSize : ℕ} {parts : List (List Char)}
    (h : Grouped secondary groupSize parts) : parts ≠ [] := by
  cases h <;> exact cons_ne_nil _ _

/-! ### Groups and a mark between them -/

theorem not_mem_of_digits {c : Char} (hc : c.isDigit = false) {part : List Char}
    (h : part.all Char.isDigit) : c ∉ part := by
  intro hmem
  have hdigit := all_eq_true.mp h c hmem
  rw [hc] at hdigit
  cases hdigit

section Marked

variable {mark : Char} {parts : List (List Char)}

/-- What a marked text is made of. -/
theorem mem_marked (hparts : ∀ part ∈ parts, Digits part) {c : Char}
    (hc : c ∈ [mark].intercalate parts) : c.isDigit ∨ c = mark := by
  induction parts with
  | nil => cases hc
  | cons part parts ih =>
    rw [List.forall_mem_cons] at hparts
    have hdigit : c ∈ part → c.isDigit := fun hmem => all_eq_true.mp hparts.1.2 c hmem
    cases parts with
    | nil =>
      rw [intercalate_singleton] at hc
      exact .inl (hdigit hc)
    | cons next parts =>
      rw [intercalate_cons_cons, append_assoc] at hc
      rcases mem_append.mp hc with hc | hc
      · exact .inl (hdigit hc)
      · rcases mem_append.mp hc with hc | hc
        · exact .inr (mem_singleton.mp hc)
        · exact ih hparts.2 hc

/-- Without its marks the text is the digits. -/
theorem filter_marked {keep : Char → Bool} (hkeep : ∀ c, c.isDigit → keep c = true)
    (hmark : keep mark = false) (hparts : ∀ part ∈ parts, Digits part) :
    ([mark].intercalate parts).filter keep = parts.flatten := by
  induction parts with
  | nil => rfl
  | cons part parts ih =>
    rw [List.forall_mem_cons] at hparts
    have hpart : part.filter keep = part :=
      List.filter_eq_self.mpr fun c hc => hkeep c (all_eq_true.mp hparts.1.2 c hc)
    cases parts with
    | nil => rw [intercalate_singleton, hpart, List.flatten_singleton]
    | cons next parts =>
      rw [intercalate_cons_cons, List.filter_append, List.filter_append, hpart,
        ih hparts.2, List.filter_cons_of_neg (by rw [hmark]; decide), List.filter_nil,
        List.append_nil]
      rfl

theorem map_marked (f : Char → Char) :
    ([mark].intercalate parts).map f = [f mark].intercalate (parts.map (List.map f)) := by
  induction parts with
  | nil => rfl
  | cons part parts ih =>
    cases parts with
    | nil => rw [List.map_singleton, intercalate_singleton, intercalate_singleton]
    | cons next parts =>
      rw [List.map_cons, List.map_cons, intercalate_cons_cons, intercalate_cons_cons,
        List.map_append, List.map_append, ih, List.map_singleton, List.map_cons]

/-- The marks are where the groups are cut. -/
theorem splitOnP_marked {active : List Char} (hactive : ∀ c, c ∈ active ↔ c = mark)
    (hmark : mark.isDigit = false) (hparts : ∀ part ∈ parts, Digits part) (hne : parts ≠ []) :
    ([mark].intercalate parts).splitOnP (· ∈ active) = parts := by
  have hsame : (fun c : Char => decide (c ∈ active)) = (· == mark) := by
    funext c
    rw [Bool.eq_iff_iff, decide_eq_true_iff, hactive, beq_iff_eq]
  rw [hsame, ← List.splitOn_eq_splitOnP]
  exact List.splitOn_intercalate mark
    (fun part hpart => not_mem_of_digits hmark (hparts part hpart).2) hne

/-- Two groups have a mark between them. -/
theorem mark_mem (first : List Char) {rest : List (List Char)} (hrest : rest ≠ []) :
    mark ∈ [mark].intercalate (first :: rest) := by
  obtain ⟨next, rest, rfl⟩ := List.exists_cons_of_ne_nil hrest
  rw [intercalate_cons_cons]
  simp

theorem removeGrouping_eq_filter (value separators : List Char) :
    removeGrouping value separators = value.filter (· ∉ separators) := by
  rw [removeGrouping]
  induction separators generalizing value with
  | nil => simp
  | cons separator separators ih =>
    rw [List.foldl_cons, ih, List.filter_filter]
    refine List.filter_congr fun c _ => ?_
    simp only [mem_cons, not_or, Bool.decide_and, Bool.and_comm]

variable {separators : List Char}

/-- The reader takes the marks out again. -/
theorem removeGrouping_marked (hseparators : ∀ c ∈ separators, c.isDigit = false)
    (hmark : mark ∈ separators) (hparts : ∀ part ∈ parts, Digits part) :
    removeGrouping ([mark].intercalate parts) separators = parts.flatten := by
  rw [removeGrouping_eq_filter]
  refine filter_marked (fun c hc => decide_eq_true fun hmem => ?_) (by simpa using hmark) hparts
  rw [hseparators c hmem] at hc
  cases hc

/-- The separator that is there is the mark. -/
theorem mem_active (hseparators : ∀ c ∈ separators, c.isDigit = false) (hmark : mark ∈ separators)
    {first : List Char} {rest : List (List Char)} (hrest : rest ≠ [])
    (hparts : ∀ part ∈ first :: rest, Digits part) (c : Char) :
    c ∈ separators.filter (· ∈ [mark].intercalate (first :: rest)) ↔ c = mark := by
  rw [List.mem_filter, decide_eq_true_iff]
  constructor
  · rintro ⟨hseparator, hmem⟩
    rcases mem_marked hparts hmem with hdigit | heq
    · rw [hseparators c hseparator] at hdigit
      cases hdigit
    · exact heq
  · rintro rfl
    exact ⟨hmark, mark_mem first hrest⟩

theorem isDigits_of {least most : ℕ} {piece : List Char} (h : Digits piece)
    (hleast : least ≤ piece.length) (hmost : piece.length ≤ most) : isDigits least most piece := by
  rw [isDigits, h.2, decide_eq_true hleast, decide_eq_true hmost]
  rfl

theorem length_pos_of_digits {piece : List Char} (h : Digits piece) : 1 ≤ piece.length :=
  List.length_pos_iff.mpr h.1

/-- An integer of one group has no separators. -/
theorem validGroupedInteger_digits {value separators : List Char} {grouping : Option (ℕ × ℕ)}
    (hseparators : ∀ c ∈ separators, c.isDigit = false) (hvalue : Digits value) :
    validGroupedInteger value separators grouping := by
  have hnone : separators.filter (· ∈ value) = [] := by
    rw [List.filter_eq_nil_iff]
    intro c hc hmem
    exact not_mem_of_digits (hseparators c hc) hvalue.2 (of_decide_eq_true hmem)
  rw [validGroupedInteger, hnone]
  exact decide_eq_true hvalue

/-- How an integer of two groups or more is checked. -/
theorem validGroupedInteger_more (hseparators : ∀ c ∈ separators, c.isDigit = false)
    (hmark : mark ∈ separators) {first last : List Char} {middle : List (List Char)}
    (hparts : ∀ part ∈ first :: (middle ++ [last]), Digits part) (grouping : Option (ℕ × ℕ)) :
    validGroupedInteger ([mark].intercalate (first :: (middle ++ [last]))) separators grouping =
      (isDigits 1 3 first && (middle ++ [last]).all (isDigits 3 3) ||
        (decide (2 < middle.length + 2) && isDigits 1 2 first && middle.all (isDigits 2 2) &&
          isDigits 3 3 last) || match grouping with
        | none => false
        | some (primary, secondary) => isDigits 1 secondary first &&
            middle.all (isDigits secondary secondary) && isDigits primary primary last) := by
  have hactive := mem_active hseparators hmark (by simp) hparts
  have hne : separators.filter (· ∈ [mark].intercalate (first :: (middle ++ [last]))) ≠ [] :=
    List.ne_nil_of_mem ((hactive mark).mpr rfl)
  rw [validGroupedInteger]
  generalize separators.filter _ = active at hactive hne
  rw [if_neg hne, splitOnP_marked hactive (hseparators mark hmark) hparts (by simp)]
  simp only [List.headD_cons, List.tail_cons, List.dropLast_concat, List.getLastD_cons,
    List.getLastD_concat, List.length_cons, List.length_append, List.length_nil]
  all_goals rfl

/-- The groups of the locale are read with the locale. -/
theorem validLocaleGroupedInteger_marked {primary secondary : ℕ}
    (hseparators : ∀ c ∈ separators, c.isDigit = false) (hmark : mark ∈ separators)
    (hparts : Grouped secondary primary parts) :
    validLocaleGroupedInteger ([mark].intercalate parts) separators (primary, secondary) := by
  have hall := hparts.digits
  rw [validLocaleGroupedInteger, Bool.or_eq_true]
  left
  cases hparts with
  | one hfront =>
    rw [intercalate_singleton]
    exact validGroupedInteger_digits hseparators hfront
  | more hfirst hsize hmiddle hlast hlastSize =>
    rw [validGroupedInteger_more hseparators hmark hall, Bool.or_eq_true]
    right
    simp only [Bool.and_eq_true, all_eq_true]
    refine ⟨⟨isDigits_of hfirst (length_pos_of_digits hfirst) hsize, fun part hpart => ?_⟩,
      isDigits_of hlast hlastSize.ge hlastSize.le⟩
    obtain ⟨hdigits, hlength⟩ := hmiddle part hpart
    exact isDigits_of hdigits hlength.ge hlength.le

/-- Groups of three, and Indian groups, are read without the locale. -/
theorem validGroupedInteger_marked {secondary : ℕ}
    (hseparators : ∀ c ∈ separators, c.isDigit = false) (hmark : mark ∈ separators)
    (hsecondary : secondary = 3 ∨ secondary = 2) (hparts : Grouped secondary 3 parts) :
    validGroupedInteger ([mark].intercalate parts) separators none := by
  have hall := hparts.digits
  cases hparts with
  | one hfront =>
    rw [intercalate_singleton]
    exact validGroupedInteger_digits hseparators hfront
  | @more first last middle hfirst hsize hmiddle hlast hlastSize =>
    have hlastDigits := isDigits_of hlast hlastSize.ge hlastSize.le
    rw [validGroupedInteger_more hseparators hmark hall, Bool.or_false, Bool.or_eq_true]
    rcases hsecondary with rfl | rfl
    · left
      rw [Bool.and_eq_true, List.all_append, List.all_cons, List.all_nil, hlastDigits]
      refine ⟨isDigits_of hfirst (length_pos_of_digits hfirst) hsize, ?_⟩
      rw [Bool.and_eq_true, all_eq_true]
      exact ⟨fun part hpart => isDigits_of (hmiddle part hpart).1 (hmiddle part hpart).2.ge
        (hmiddle part hpart).2.le, rfl⟩
    · -- one Indian group before the last is a group of three, too
      cases middle with
      | nil =>
        left
        rw [Bool.and_eq_true, List.nil_append, List.all_cons, List.all_nil, hlastDigits]
        exact ⟨isDigits_of hfirst (length_pos_of_digits hfirst) (hsize.trans (by decide)), rfl⟩
      | cons part middle =>
        right
        simp only [Bool.and_eq_true, all_eq_true]
        refine ⟨⟨⟨decide_eq_true (by rw [List.length_cons]; omega),
          isDigits_of hfirst (length_pos_of_digits hfirst) hsize⟩, fun other hother => ?_⟩,
          hlastDigits⟩
        exact isDigits_of (hmiddle other hother).1 (hmiddle other hother).2.ge
          (hmiddle other hother).2.le

/-! ### Spaces -/

/-- A text without runs of spaces, and with no space but the plain one, is left as it is. -/
theorem collapseSpaces_digits {part : List Char} (h : Digits part) (afterSpace : Bool)
    (rest : List Char) :
    collapseSpaces afterSpace (part ++ rest) = part ++ collapseSpaces false rest := by
  have hspace : ∀ c : Char, c.isDigit → isInlineSpace c = false := by
    intro c hc
    obtain ⟨i, rfl⟩ := exists_asciiDigit hc
    have hall : ∀ j : Fin 10, isInlineSpace (asciiDigit j) = false := by decide
    exact hall i
  obtain ⟨hne, hall⟩ := h
  induction part generalizing afterSpace with
  | nil => exact absurd rfl hne
  | cons c part ih =>
    rw [List.all_cons, Bool.and_eq_true] at hall
    rw [List.cons_append, collapseSpaces, hspace c hall.1, if_neg (by decide)]
    cases part with
    | nil => rfl
    | cons d part =>
      rw [ih false (cons_ne_nil d part) hall.2]
      rfl

theorem collapseSpaces_marked (hmark : mark = ' ' ∨ isInlineSpace mark = false)
    (hparts : ∀ part ∈ parts, Digits part) (hne : parts ≠ []) (afterSpace : Bool)
    (rest : List Char) :
    collapseSpaces afterSpace ([mark].intercalate parts ++ rest) =
      [mark].intercalate parts ++ collapseSpaces false rest := by
  induction parts generalizing afterSpace with
  | nil => exact absurd rfl hne
  | cons part parts ih =>
    rw [List.forall_mem_cons] at hparts
    cases parts with
    | nil =>
      rw [intercalate_singleton]
      exact collapseSpaces_digits hparts.1 afterSpace rest
    | cons next parts =>
      have hnext := fun afterSpace => ih hparts.2 (cons_ne_nil _ _) afterSpace
      rw [intercalate_cons_cons, append_assoc, append_assoc,
        collapseSpaces_digits hparts.1, append_assoc, append_assoc,
        List.singleton_append, List.singleton_append, collapseSpaces]
      rcases hmark with rfl | hmark
      · rw [if_pos (by decide), if_neg (by decide), hnext]
      · rw [hmark, if_neg (by decide), hnext]

variable (mark) in
/-- A marked text begins and ends with a digit. -/
theorem ends_marked (hparts : ∀ part ∈ parts, Digits part) (hne : parts ≠ []) :
    (∃ c ∈ ([mark].intercalate parts).head?, c.isDigit) ∧
      ∃ c ∈ ([mark].intercalate parts).getLast?, c.isDigit := by
  induction parts with
  | nil => exact absurd rfl hne
  | cons part parts ih =>
    rw [List.forall_mem_cons] at hparts
    obtain ⟨⟨hpart, hall⟩, hrest⟩ := hparts
    rw [all_eq_true] at hall
    have hhead : ∀ rest, ∃ c ∈ (part ++ rest).head?, c.isDigit := by
      intro rest
      obtain ⟨c, cs, rfl⟩ := List.exists_cons_of_ne_nil hpart
      exact ⟨c, rfl, hall c (.head _)⟩
    cases parts with
    | nil =>
      rw [intercalate_singleton]
      refine ⟨by simpa using hhead [], part.getLast hpart, List.getLast?_eq_some_getLast hpart, ?_⟩
      exact hall _ (List.getLast_mem hpart)
    | cons next parts =>
      obtain ⟨-, c, hc, hdigit⟩ := ih hrest (cons_ne_nil _ _)
      rw [intercalate_cons_cons, append_assoc]
      refine ⟨hhead _, c, ?_, hdigit⟩
      rw [← append_assoc, List.getLast?_append_of_ne_nil]
      · exact hc
      · rintro hnil
        rw [hnil] at hc
        cases hc

end Marked

/-! ### Which mark is the decimal mark -/

section Marks

variable {syn : LocaleSyntax} {mark point : Char} {parts : List (List Char)} {frac : List Char}

theorem notMem_marked {c : Char} (hc : c.isDigit = false) (hmark : c ≠ mark)
    (hparts : ∀ part ∈ parts, Digits part) : c ∉ [mark].intercalate parts := by
  intro hmem
  rcases mem_marked hparts hmem with hdigit | heq
  · rw [hc] at hdigit
    cases hdigit
  · exact hmark heq

/-- Groups before a known decimal mark. -/
theorem splitAtDecimal_marked (hpoint : point.isDigit = false) (hdistinct : point ≠ mark)
    (hparts : ∀ part ∈ parts, Digits part) (hfrac : Digits frac) {group : Option Char}
    (hgroups : ∀ c ∈ group.toList ++ [' '], c.isDigit = false)
    (hmark : mark ∈ group.toList ++ [' '])
    (hvalid : (if group = some syn.asciiGroup
      then validLocaleGroupedInteger ([mark].intercalate parts) (group.toList ++ [' '])
        (syn.primary, syn.secondary)
      else validGroupedInteger ([mark].intercalate parts) (group.toList ++ [' ']) none) = true) :
    splitAtDecimal syn ([mark].intercalate parts ++ point :: frac) point group =
      some (parts.flatten ++ '.' :: frac) := by
  have hsplit : ([mark].intercalate parts ++ point :: frac).splitOn point =
      [[mark].intercalate parts, frac] := by
    rw [List.splitOn_append_cons_self_of_not_mem (notMem_marked hpoint hdistinct hparts),
      List.splitOn_eq_singleton (not_mem_of_digits hpoint hfrac.2)]
  have hremove := removeGrouping_marked hgroups hmark hparts
  rw [splitAtDecimal, hsplit]
  simp only [hvalid, if_true, hremove, hfrac.2]
  have hinteger : (if (group.toList ++ [' ']).any (· ∈ [mark].intercalate parts) then
      some parts.flatten else if ([mark].intercalate parts).all Char.isDigit then
        some ([mark].intercalate parts) else none) = some parts.flatten := by
    split
    · rfl
    · next hnone =>
      have hno : mark ∉ [mark].intercalate parts := fun hmem =>
        hnone (List.any_eq_true.mpr ⟨mark, hmark, decide_eq_true hmem⟩)
      have hall : ([mark].intercalate parts).all Char.isDigit := by
        rw [all_eq_true]
        intro c hc
        rcases mem_marked hparts hc with hdigit | rfl
        · exact hdigit
        · exact absurd hc hno
      have hflatten : [mark].intercalate parts = parts.flatten := by
        rw [← hremove, removeGrouping_eq_filter, List.filter_eq_self.mpr]
        intro c hc
        refine decide_eq_true fun hmem => ?_
        have hdigit := all_eq_true.mp hall c hc
        rw [hgroups c hmem] at hdigit
        cases hdigit
      rw [if_pos hall, hflatten]
  rw [hinteger, Option.map_some, if_neg (fun hnil => hfrac.1 hnil.2)]

theorem space_isDigit : ∀ c ∈ [' '], c.isDigit = false := by
  intro c hc
  rw [mem_singleton.mp hc]
  rfl

/-- Without a fraction and with spaces between the groups there is no mark to decide. -/
theorem readMarks_spaced_whole (hparts : Grouped syn.secondary syn.primary parts) :
    readMarks syn ([' '].intercalate parts) = some parts.flatten := by
  have hdot : '.' ∉ [' '].intercalate parts := notMem_marked rfl (by decide) hparts.digits
  have hcomma : ',' ∉ [' '].intercalate parts := notMem_marked rfl (by decide) hparts.digits
  have hvalid := validLocaleGroupedInteger_marked space_isDigit (List.mem_singleton_self ' ') hparts
  rw [readMarks, if_neg (fun hboth => hdot hboth.1), if_pos ⟨hdot, hcomma⟩, if_pos hvalid,
    removeGrouping_marked space_isDigit (List.mem_singleton_self ' ') hparts.digits]

/-- Which of the two marks a text has. -/
theorem separator_eq (raw : List Char) (hpoint : point = '.' ∨ point = ',') (hmem : point ∈ raw)
    (hother : ∀ c, c = '.' ∨ c = ',' → c ≠ point → c ∉ raw) :
    ¬('.' ∈ raw ∧ ',' ∈ raw) ∧ ¬('.' ∉ raw ∧ ',' ∉ raw) ∧
      (if '.' ∈ raw then '.' else ',') = point := by
  rcases hpoint with rfl | rfl
  · have hno := hother ',' (.inr rfl) (by decide)
    exact ⟨fun hboth => hno hboth.2, fun hnone => hnone.1 hmem, if_pos hmem⟩
  · have hno := hother '.' (.inl rfl) (by decide)
    exact ⟨fun hboth => hno hboth.1, fun hnone => hnone.2 hmem, if_neg hno⟩

theorem isDigit_of_mark (hpoint : point = '.' ∨ point = ',') : point.isDigit = false := by
  rcases hpoint with rfl | rfl <;> rfl

/-- With spaces between the groups the only mark is the decimal mark. -/
theorem readMarks_spaced_fraction (hpoint : point = '.' ∨ point = ',')
    (hgroup : point ≠ syn.asciiGroup) (hparts : ∀ part ∈ parts, Digits part) (hfrac : Digits frac)
    (hvalid : validGroupedInteger ([' '].intercalate parts) [' '] none) :
    readMarks syn ([' '].intercalate parts ++ point :: frac) =
      some (parts.flatten ++ '.' :: frac) := by
  have hdigit := isDigit_of_mark hpoint
  have hspace : point ≠ ' ' := by
    rcases hpoint with rfl | rfl <;> decide
  have hnone : ∀ c, c.isDigit = false → c ≠ ' ' → c ∉ [' '].intercalate parts ∧ c ∉ frac :=
    fun c hc hne => ⟨notMem_marked hc hne hparts, not_mem_of_digits hc hfrac.2⟩
  have hother : ∀ c, c = '.' ∨ c = ',' → c ≠ point →
      c ∉ [' '].intercalate parts ++ point :: frac := by
    intro c hc hne hmem
    have hcspace : c ≠ ' ' := by
      rcases hc with rfl | rfl <;> decide
    obtain ⟨hint, hfr⟩ := hnone c (isDigit_of_mark hc) hcspace
    rcases mem_append.mp hmem with hmem | hmem
    · exact hint hmem
    · rcases mem_cons.mp hmem with rfl | hmem
      · exact hne rfl
      · exact hfr hmem
  obtain ⟨hboth, hneither, hseparator⟩ := separator_eq _ hpoint (by simp) hother
  have hcount : ([' '].intercalate parts ++ point :: frac).count point = 1 := by
    obtain ⟨hint, hfr⟩ := hnone point hdigit hspace
    rw [List.count_append, List.count_cons_self, List.count_eq_zero_of_not_mem hint,
      List.count_eq_zero_of_not_mem hfr]
  rw [readMarks, if_neg hboth, if_neg hneither]
  simp only [hseparator, hcount, lt_irrefl, if_false, hgroup, false_and]
  exact splitAtDecimal_marked hdigit hspace hparts hfrac space_isDigit
    (List.mem_singleton_self ' ') hvalid

theorem groups_isDigit (hmark : mark = '.' ∨ mark = ',') :
    ∀ c ∈ [mark, ' '], c.isDigit = false := by
  intro c hc
  rcases mem_cons.mp hc with rfl | hc
  · exact isDigit_of_mark hmark
  · exact space_isDigit c hc

/-- Without a fraction the only mark is the group mark of the locale. -/
theorem readMarks_grouped_whole (hmark : mark = '.' ∨ mark = ',') (hgroup : mark = syn.asciiGroup)
    (hpoint : mark ≠ syn.asciiDecimal) (hparts : Grouped syn.secondary syn.primary parts)
    (hmem : mark ∈ [mark].intercalate parts) :
    readMarks syn ([mark].intercalate parts) = some parts.flatten := by
  have hgroups := groups_isDigit hmark
  have hother : ∀ c, c = '.' ∨ c = ',' → c ≠ mark → c ∉ [mark].intercalate parts :=
    fun c hc hne => notMem_marked (isDigit_of_mark hc) hne hparts.digits
  obtain ⟨hboth, hneither, hseparator⟩ := separator_eq _ hmark hmem hother
  have hvalid := validLocaleGroupedInteger_marked hgroups (.head _) hparts
  have hremove := removeGrouping_marked hgroups (.head _) hparts.digits
  rw [readMarks, if_neg hboth, if_neg hneither]
  simp only [hseparator, hvalid, hremove, ← hgroup, if_true, ne_eq, hpoint, not_false_iff, true_and]
  split
  · rfl
  · rfl

/-- With a fraction the last mark is the decimal mark. -/
theorem readMarks_grouped_fraction (hmark : mark = '.' ∨ mark = ',')
    (hpoint : point = '.' ∨ point = ',') (hdistinct : point ≠ mark) (hgroup : mark = syn.asciiGroup)
    (hparts : Grouped syn.secondary syn.primary parts) (hfrac : Digits frac)
    (hmem : mark ∈ [mark].intercalate parts) :
    readMarks syn ([mark].intercalate parts ++ point :: frac) =
      some (parts.flatten ++ '.' :: frac) := by
  obtain ⟨raw, hraw⟩ : ∃ raw, [mark].intercalate parts ++ point :: frac = raw := ⟨_, rfl⟩
  have hread : splitAtDecimal syn raw point (some mark) = some (parts.flatten ++ '.' :: frac) := by
    rw [← hraw]
    refine splitAtDecimal_marked (isDigit_of_mark hpoint) hdistinct hparts.digits hfrac
      (groups_isDigit hmark) List.mem_cons_self ?_
    rw [if_pos (congrArg some hgroup)]
    exact validLocaleGroupedInteger_marked (groups_isDigit hmark) (.head _) hparts
  have hmarkRaw : mark ∈ raw := by
    rw [← hraw]
    exact List.mem_append_left _ hmem
  have hpointRaw : point ∈ raw := by
    rw [← hraw]
    simp
  -- counted from the end, the decimal mark comes right after the fraction
  have hlast : raw.reverse.idxOf point < raw.reverse.idxOf mark := by
    have hno : ∀ c, c.isDigit = false → c ∉ frac.reverse := fun c hc hc' =>
      not_mem_of_digits hc hfrac.2 (List.mem_reverse.mp hc')
    rw [← hraw, List.reverse_append, List.reverse_cons, append_assoc, List.singleton_append,
      List.idxOf_append_of_notMem (hno point (isDigit_of_mark hpoint)),
      List.idxOf_append_of_notMem (hno mark (isDigit_of_mark hmark)), List.idxOf_cons_self,
      List.idxOf_cons_ne _ hdistinct]
    omega
  rw [hraw, readMarks]
  rcases hpoint with rfl | rfl
  · obtain rfl : mark = ',' := hmark.resolve_left fun heq => hdistinct heq.symm
    rw [if_pos ⟨hpointRaw, hmarkRaw⟩, if_pos hlast]
    exact hread
  · obtain rfl : mark = '.' := hmark.resolve_right fun heq => hdistinct heq.symm
    rw [if_pos ⟨hmarkRaw, hpointRaw⟩, if_neg (not_lt.mpr hlast.le)]
    exact hread

end Marks

end XchainWallet
