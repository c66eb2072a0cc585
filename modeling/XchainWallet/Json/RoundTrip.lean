import XchainWallet.Json.Value

/-!
# What is written is read back

`settled v` is what is left of a value that is written and read: a number that is not finite has
become `null`. `parse_stringify` says so for every value whose objects have no name twice, and
`distinct_of_parse` that the values that are read are such. Two of them with one text are therefore
equal, up to those numbers.
-/

namespace Json

open Option (bind_eq_bind bind_eq_some_iff bind_some map_eq_some_iff some.inj)
open List (append_assoc cons.inj cons_append length_append length_cons)

/-! ### Names once, and finite numbers -/

mutual

/-- No object in the value has a name twice. -/
def Value.Distinct : Value → Prop
  | .arr elements => DistinctElements elements
  | .obj members => (members.map Prod.fst).Nodup ∧ DistinctMembers members
  | _ => True

/-- `Value.Distinct` of the elements. -/
def DistinctElements : List Value → Prop
  | [] => True
  | v :: vs => v.Distinct ∧ DistinctElements vs

/-- `Value.Distinct` of the values of members. -/
def DistinctMembers : List (Units × Value) → Prop
  | [] => True
  | (_, v) :: members => v.Distinct ∧ DistinctMembers members

end

mutual

/-- What is left of a value that is written. -/
def Value.settled : Value → Value
  | .num (.finite units h) => .num (.finite units h)
  | .num _ => .null
  | .arr elements => .arr (settledElements elements)
  | .obj members => .obj (settledMembers members)
  | v => v

/-- `Value.settled` of the elements. -/
def settledElements : List Value → List Value
  | [] => []
  | v :: vs => v.settled :: settledElements vs

/-- `Value.settled` of the values of members. -/
def settledMembers : List (Units × Value) → List (Units × Value)
  | [] => []
  | (key, v) :: members => (key, v.settled) :: settledMembers members

end

mutual

/-- No number in the value but finite ones. -/
def Value.AllFinite : Value → Prop
  | .num (.finite _ _) => True
  | .num _ => False
  | .arr elements => AllFiniteElements elements
  | .obj members => AllFiniteMembers members
  | _ => True

/-- `Value.AllFinite` of the elements. -/
def AllFiniteElements : List Value → Prop
  | [] => True
  | v :: vs => v.AllFinite ∧ AllFiniteElements vs

/-- `Value.AllFinite` of the values of members. -/
def AllFiniteMembers : List (Units × Value) → Prop
  | [] => True
  | (_, v) :: members => v.AllFinite ∧ AllFiniteMembers members

end

mutual

/-- A value with finite numbers only is left as it is. -/
theorem settled_of_allFinite : ∀ v : Value, v.AllFinite → v.settled = v
  | .null, _ => rfl
  | .bool _, _ => rfl
  | .num (.finite _ _), _ => rfl
  | .num (.infinite _), h => h.elim
  | .num .nan, h => h.elim
  | .str _, _ => rfl
  | .arr elements, h => congrArg Value.arr (settledElements_of_allFinite elements h)
  | .obj members, h => congrArg Value.obj (settledMembers_of_allFinite members h)

theorem settledElements_of_allFinite : ∀ vs : List Value, AllFiniteElements vs →
    settledElements vs = vs
  | [], _ => rfl
  | v :: vs, h => by
    have hv := settled_of_allFinite v h.1
    have hvs := settledElements_of_allFinite vs h.2
    rw [settledElements, hv, hvs]

theorem settledMembers_of_allFinite : ∀ members : List (Units × Value),
    AllFiniteMembers members → settledMembers members = members
  | [], _ => rfl
  | (key, v) :: members, h => by
    have hv := settled_of_allFinite v h.1
    have hmembers := settledMembers_of_allFinite members h.2
    rw [settledMembers, hv, hmembers]

end

mutual

/-- What is left has finite numbers only. -/
theorem allFinite_settled : ∀ v : Value, v.settled.AllFinite
  | .null => trivial
  | .bool _ => trivial
  | .num (.finite _ _) => trivial
  | .num (.infinite _) => trivial
  | .num .nan => trivial
  | .str _ => trivial
  | .arr elements => allFinite_settledElements elements
  | .obj members => allFinite_settledMembers members

theorem allFinite_settledElements : ∀ vs : List Value, AllFiniteElements (settledElements vs)
  | [] => trivial
  | v :: vs => ⟨allFinite_settled v, allFinite_settledElements vs⟩

theorem allFinite_settledMembers : ∀ members : List (Units × Value),
    AllFiniteMembers (settledMembers members)
  | [] => trivial
  | (_, v) :: members => ⟨allFinite_settled v, allFinite_settledMembers members⟩

end

theorem map_fst_settledMembers (members : List (Units × Value)) :
    (settledMembers members).map Prod.fst = members.map Prod.fst := by
  induction members with
  | nil => rfl
  | cons member members ih => rw [settledMembers, List.map_cons, List.map_cons, ih]

/-! ### Members of an object -/

private theorem foldl_upsert_of_nodup (own members : List (Units × Value))
    (h : ((own ++ members).map Prod.fst).Nodup) :
    members.foldl (fun own member => Keyed.upsert Prod.fst member own) own = own ++ members := by
  induction members generalizing own with
  | nil => simp
  | cons member members ih =>
    have hnew : ∀ b ∈ own, b.1 ≠ member.1 := by
      intro b hb heq
      rw [List.map_append, List.map_cons, List.nodup_append] at h
      exact h.2.2 b.1 (List.mem_map_of_mem hb) member.1 List.mem_cons_self heq
    rw [List.foldl_cons, Keyed.upsert_eq_append hnew, ih]
    · simp
    · simpa using h

variable {members : List (Units × Value)}

/-- Members with different names are all there. -/
theorem ownMembers_of_nodup (h : (members.map Prod.fst).Nodup) : ownMembers members = members :=
  foldl_upsert_of_nodup [] members h

/-! ### Tokens -/

theorem skipSpace_cons {c : Char} (h : isSpace c = false) (rest : List Char) :
    skipSpace (c :: rest) = c :: rest :=
  List.dropWhile_cons_of_neg (by simp [h])

theorem goesOn_comma (close : Char) (rest : List Char) :
    goesOn close (',' :: rest) = some (true, rest) := by
  rw [goesOn, skipSpace_cons (by decide)]
  exact if_pos rfl

theorem goesOn_close {close : Char} (h : isSpace close = false) (hcomma : close ≠ ',')
    (rest : List Char) : goesOn close (close :: rest) = some (false, rest) := by
  rw [goesOn, skipSpace_cons h]
  exact (if_neg hcomma).trans (if_pos rfl)

theorem readKey_quoted (key : Units) (rest : List Char) :
    readKey (quoted key ++ ':' :: rest) = some (key, rest) := by
  have hread := readQuoted_quote key (':' :: rest)
  have htext : quoted key ++ ':' :: rest = '"' :: (quote key ++ '"' :: (':' :: rest)) := by
    simp [quoted]
  rw [htext, readKey, skipSpace_cons (by decide)]
  simp only [hread]
  rw [skipSpace_cons (by decide)]
  rfl

/-- A number begins with a digit or a sign. -/
theorem head_of_readNumber {text rest : List Char} {n : Number}
    (h : readNumber text = some (n, rest)) :
    ∃ c tail, text = c :: tail ∧ (c.isDigit ∨ c = '-') := by
  cases text with
  | nil => cases h
  | cons c tail =>
    refine ⟨c, tail, rfl, ?_⟩
    by_contra hno
    rw [not_or] at hno
    have hwhole : readWhole (c :: tail) = none := by
      rw [readWhole, List.takeWhile_cons_of_neg hno.1]
      exact if_neg fun h => h.1 rfl
    have hdecimal : readDecimal (c :: tail) = none := by
      rw [readDecimal, hwhole]
      rfl
    unfold readNumber at h
    split at h
    · next heq => exact hno.2 (cons.inj heq).1
    · rw [hdecimal] at h
      cases h

private theorem isSpace_of_number {c : Char} (h : c.isDigit ∨ c = '-') : isSpace c = false := by
  rw [isSpace, decide_eq_false_iff_not]
  rintro (rfl | rfl | rfl | rfl) <;> revert h <;> decide

theorem readValue_of_readNumber {text rest : List Char} {n : Number}
    (h : readNumber text = some (n, rest)) (fuel : ℕ) :
    readValue (fuel + 1) text = some (.num n, rest) := by
  obtain ⟨c, tail, rfl, hc⟩ := head_of_readNumber h
  have hne : ∀ d, ¬d.isDigit ∧ d ≠ '-' → c ≠ d := by
    rintro d hd rfl
    exact hc.elim hd.1 hd.2
  rw [readValue, skipSpace_cons (isSpace_of_number hc)]
  split
  · next heq => exact absurd (cons.inj heq).1 (hne 'n' (by decide))
  · next heq => exact absurd (cons.inj heq).1 (hne 't' (by decide))
  · next heq => exact absurd (cons.inj heq).1 (hne 'f' (by decide))
  · next heq => exact absurd (cons.inj heq).1 (hne '"' (by decide))
  · next heq => exact absurd (cons.inj heq).1 (hne '[' (by decide))
  · next heq => exact absurd (cons.inj heq).1 (hne '{' (by decide))
  · rw [h]
    rfl

private theorem numberEnds_cons {c : Char} (h : c.isDigit = false ∧ c ≠ '.' ∧ c ≠ 'e' ∧ c ≠ 'E')
    (rest : List Char) : NumberEnds (c :: rest) := by
  intro d hd
  rw [← some.inj hd]
  exact h

theorem numberEnds_elementsText (vs : List Value) (rest : List Char) :
    NumberEnds (elementsText vs ++ rest) := by
  cases vs with
  | nil => exact numberEnds_cons (by decide) rest
  | cons v vs => exact numberEnds_cons (by decide) _

theorem numberEnds_membersText (members : List (Units × Value)) (rest : List Char) :
    NumberEnds (membersText members ++ rest) := by
  cases members with
  | nil => exact numberEnds_cons (by decide) rest
  | cons member members => exact numberEnds_cons (by decide) _

/-- A text begins with a character of its value, which is no space and no bracket that closes. -/
theorem head_stringify (v : Value) :
    ∃ c tail, stringify v = c :: tail ∧ isSpace c = false ∧ c ≠ ']' ∧ c.toNat < 128 := by
  cases v with
  | null | str s => exact ⟨_, _, rfl, by decide, by decide, by decide⟩
  | bool b => cases b <;> exact ⟨_, _, rfl, by decide, by decide, by decide⟩
  | num n =>
    cases n with
    | finite units h =>
      have hends : NumberEnds [] := by
        intro c hc
        cases hc
      have hread := readNumber_text h hends
      obtain ⟨c, tail, htext, hc⟩ := head_of_readNumber hread
      rw [List.append_nil] at htext
      refine ⟨c, tail, by rw [stringify, numberText, htext], isSpace_of_number hc, ?_, ?_⟩
      · rintro rfl
        revert hc
        decide
      · rcases hc with hdigit | rfl
        · have hnine := (Char.isDigit_iff_toNat.mp hdigit).2
          exact Nat.lt_of_le_of_lt hnine (by decide)
        · decide
    | infinite negative | nan => exact ⟨_, _, rfl, by decide, by decide, by decide⟩
  | arr elements => cases elements <;> exact ⟨_, _, rfl, by decide, by decide, by decide⟩
  | obj members => cases members <;> exact ⟨_, _, rfl, by decide, by decide, by decide⟩

/-! ### Values -/

/-- The value is read back from its text, whatever follows it. -/
private def Reads (v : Value) : Prop :=
  ∀ fuel rest, NumberEnds rest → 2 * (stringify v).length < fuel →
    readValue fuel (stringify v ++ rest) = some (v.settled, rest)

private theorem reads_null {v : Value} (htext : stringify v = "null".toList)
    (hsettled : v.settled = .null) : Reads v := by
  intro fuel rest _ hfuel
  cases fuel with
  | zero => exact absurd hfuel (Nat.not_lt_zero _)
  | succ fuel =>
    rw [htext, hsettled]
    rfl

mutual

private theorem reads : ∀ v : Value, v.Distinct → Reads v
  | .null, _ => reads_null rfl rfl
  | .bool b, _ => by
    intro fuel rest _ hfuel
    cases fuel with
    | zero => exact absurd hfuel (Nat.not_lt_zero _)
    | succ fuel => cases b <;> rfl
  | .num (.finite units h), _ => by
    intro fuel rest hrest hfuel
    cases fuel with
    | zero => exact absurd hfuel (Nat.not_lt_zero _)
    | succ fuel => exact readValue_of_readNumber (readNumber_text h hrest) fuel
  | .num (.infinite negative), _ => reads_null rfl rfl
  | .num .nan, _ => reads_null rfl rfl
  | .str s, _ => by
    intro fuel rest _ hfuel
    cases fuel with
    | zero => exact absurd hfuel (Nat.not_lt_zero _)
    | succ fuel =>
      have htext : stringify (.str s) ++ rest = '"' :: (quote s ++ '"' :: rest) := by
        simp [stringify, quoted]
      rw [htext, readValue, skipSpace_cons (by decide)]
      simp only [readQuoted_quote]
      rfl
  | .arr [], _ | .obj [], _ => by
    intro fuel rest _ hfuel
    cases fuel with
    | zero => exact absurd hfuel (Nat.not_lt_zero _)
    | succ fuel => rfl
  | .arr (v :: vs), hdistinct => by
    intro fuel rest _ hfuel
    obtain ⟨hv, hvs⟩ : v.Distinct ∧ DistinctElements vs := hdistinct
    cases fuel with
    | zero => exact absurd hfuel (Nat.not_lt_zero _)
    | succ fuel =>
      have hlength : (stringify (.arr (v :: vs))).length =
          (stringify v).length + (elementsText vs).length + 1 := by
        rw [stringify, length_cons, length_append]
      have helements := readsElements vs v fuel rest (reads v hv) hvs (by omega)
      obtain ⟨c, tail, htext, hspace, hclose, -⟩ := head_stringify v
      have hopen : (skipSpace (stringify v ++ (elementsText vs ++ rest))).head? ≠ some ']' := by
        rw [htext, cons_append, skipSpace_cons hspace]
        exact fun h => hclose (some.inj h)
      rw [stringify, cons_append, append_assoc, readValue, skipSpace_cons (by decide)]
      simp only [if_neg hopen, helements, Option.map_some]
      rw [Value.settled, settledElements]
  | .obj ((key, v) :: members), hdistinct => by
    intro fuel rest _ hfuel
    obtain ⟨hnodup, hv, hmembers⟩ : (((key, v) :: members).map Prod.fst).Nodup ∧
      v.Distinct ∧ DistinctMembers members := hdistinct
    cases fuel with
    | zero => exact absurd hfuel (Nat.not_lt_zero _)
    | succ fuel =>
      have hlength : (stringify (.obj ((key, v) :: members))).length =
          (quoted key).length + (stringify v).length + (membersText members).length + 2 := by
        rw [stringify, length_cons, length_append, length_cons, length_append]
        omega
      have hread := readsMembers members key v fuel rest (reads v hv) hmembers (by omega)
      have hopen : (skipSpace (quoted key ++
          ':' :: (stringify v ++ (membersText members ++ rest)))).head? ≠ some '}' := by
        rw [quoted, cons_append, cons_append, skipSpace_cons (by decide)]
        exact fun h => absurd (some.inj h) (by decide)
      have hown : ownMembers (settledMembers ((key, v) :: members)) =
          settledMembers ((key, v) :: members) :=
        ownMembers_of_nodup (by rw [map_fst_settledMembers]; exact hnodup)
      rw [stringify, cons_append, append_assoc, cons_append, append_assoc,
        readValue, skipSpace_cons (by decide)]
      simp only [if_neg hopen, hread, Option.map_some, hown]
      rw [Value.settled]

private theorem readsElements : ∀ (vs : List Value) (v : Value) (fuel : ℕ) (rest : List Char),
    Reads v → DistinctElements vs →
      2 * ((stringify v).length + (elementsText vs).length) + 1 < fuel →
      readElements fuel (stringify v ++ (elementsText vs ++ rest)) =
        some (settledElements (v :: vs), rest)
  | [], v, fuel, rest, hv, _, hfuel => by
    cases fuel with
    | zero => exact absurd hfuel (Nat.not_lt_zero _)
    | succ fuel =>
      have hread := hv fuel _ (numberEnds_elementsText [] rest) (by omega)
      rw [readElements, hread]
      have hclose : goesOn ']' (elementsText [] ++ rest) = some (false, rest) :=
        goesOn_close (by decide) (by decide) rest
      simp only [bind_eq_bind, bind_some, hclose]
      rfl
  | w :: ws, v, fuel, rest, hv, hdistinct, hfuel => by
    obtain ⟨hw, hws⟩ : w.Distinct ∧ DistinctElements ws := hdistinct
    cases fuel with
    | zero => exact absurd hfuel (Nat.not_lt_zero _)
    | succ fuel =>
      have hlength : (elementsText (w :: ws)).length =
          (stringify w).length + (elementsText ws).length + 1 := by
        rw [elementsText, length_cons, length_append]
      have hread := hv fuel _ (numberEnds_elementsText (w :: ws) rest) (by omega)
      have hrest := readsElements ws w fuel rest (reads w hw) hws (by omega)
      have hcomma : goesOn ']' (elementsText (w :: ws) ++ rest) =
          some (true, stringify w ++ (elementsText ws ++ rest)) := by
        rw [elementsText, cons_append, append_assoc, goesOn_comma]
      rw [readElements, hread]
      simp only [bind_eq_bind, bind_some, hcomma, if_true, hrest]
      rfl

private theorem readsMembers : ∀ (members : List (Units × Value)) (key : Units) (v : Value)
    (fuel : ℕ) (rest : List Char), Reads v → DistinctMembers members →
      2 * ((quoted key).length + (stringify v).length + (membersText members).length + 1) + 1 <
        fuel →
      readMembers fuel (quoted key ++ ':' :: (stringify v ++ (membersText members ++ rest))) =
        some (settledMembers ((key, v) :: members), rest)
  | [], key, v, fuel, rest, hv, _, hfuel => by
    cases fuel with
    | zero => exact absurd hfuel (Nat.not_lt_zero _)
    | succ fuel =>
      have hread := hv fuel _ (numberEnds_membersText [] rest) (by omega)
      have hclose : goesOn '}' (membersText [] ++ rest) = some (false, rest) :=
        goesOn_close (by decide) (by decide) rest
      rw [readMembers, readKey_quoted]
      simp only [bind_eq_bind, bind_some, hread, hclose]
      rfl
  | (key', w) :: members, key, v, fuel, rest, hv, hdistinct, hfuel => by
    obtain ⟨hw, hmembers⟩ : w.Distinct ∧ DistinctMembers members := hdistinct
    cases fuel with
    | zero => exact absurd hfuel (Nat.not_lt_zero _)
    | succ fuel =>
      have hlength : (membersText ((key', w) :: members)).length =
          (quoted key').length + (stringify w).length + (membersText members).length + 2 := by
        rw [membersText, length_cons, length_append, length_cons, length_append]
        omega
      have hread := hv fuel _ (numberEnds_membersText ((key', w) :: members) rest) (by omega)
      have hrest := readsMembers members key' w fuel rest (reads w hw) hmembers (by omega)
      have hcomma : goesOn '}' (membersText ((key', w) :: members) ++ rest) =
          some (true, quoted key' ++ ':' :: (stringify w ++ (membersText members ++ rest))) := by
        rw [membersText, cons_append, append_assoc, cons_append, append_assoc,
          goesOn_comma]
      rw [readMembers, readKey_quoted]
      simp only [bind_eq_bind, bind_some, hread, hcomma, if_true, hrest]
      rfl

end

/-- **What is written is read back.** -/
theorem parse_stringify {v : Value} (h : v.Distinct) : parse (stringify v) = some v.settled := by
  have hread := reads v h (2 * (stringify v).length + 1) [] (by intro c hc; cases hc) (by omega)
  rw [List.append_nil] at hread
  rw [parse, hread]
  rfl

/-! ### Values that are read -/

theorem distinctElements_iff {vs : List Value} : DistinctElements vs ↔ ∀ v ∈ vs, v.Distinct := by
  induction vs with
  | nil => simp [DistinctElements]
  | cons v vs ih => rw [DistinctElements, ih, List.forall_mem_cons]

theorem distinctMembers_iff : DistinctMembers members ↔ ∀ member ∈ members, member.2.Distinct := by
  induction members with
  | nil => simp [DistinctMembers]
  | cons member members ih => rw [DistinctMembers, ih, List.forall_mem_cons]

theorem allFiniteElements_iff {vs : List Value} : AllFiniteElements vs ↔ ∀ v ∈ vs, v.AllFinite := by
  induction vs with
  | nil => simp [AllFiniteElements]
  | cons v vs ih => rw [AllFiniteElements, ih, List.forall_mem_cons]

theorem allFiniteMembers_iff :
    AllFiniteMembers members ↔ ∀ member ∈ members, member.2.AllFinite := by
  induction members with
  | nil => simp [AllFiniteMembers]
  | cons member members ih => rw [AllFiniteMembers, ih, List.forall_mem_cons]

private theorem foldl_upsert_distinct {own members : List (Units × Value)}
    (hown : (own.map Prod.fst).Nodup) (hvalues : ∀ member ∈ own ++ members, member.2.Distinct) :
    Value.Distinct
      (.obj (members.foldl (fun own member => Keyed.upsert Prod.fst member own) own)) := by
  induction members generalizing own with
  | nil =>
    rw [List.append_nil] at hvalues
    exact ⟨hown, distinctMembers_iff.mpr hvalues⟩
  | cons member members ih =>
    refine ih (Keyed.Distinct.upsert hown) fun m hm => ?_
    rcases List.mem_append.mp hm with hm | hm
    · rcases Keyed.mem_upsert hm with rfl | hm
      · exact hvalues m (by simp)
      · exact hvalues m (List.mem_append_left _ hm)
    · exact hvalues m (by simp [hm])

theorem distinct_ownMembers (h : DistinctMembers members) :
    Value.Distinct (.obj (ownMembers members)) :=
  foldl_upsert_distinct List.nodup_nil (distinctMembers_iff.mp h)

private theorem distinct_of_read (fuel : ℕ) :
    (∀ text v rest, readValue fuel text = some (v, rest) → v.Distinct) ∧
    (∀ text vs rest, readElements fuel text = some (vs, rest) → DistinctElements vs) ∧
    (∀ text members rest, readMembers fuel text = some (members, rest) →
      DistinctMembers members) := by
  induction fuel with
  | zero =>
    refine ⟨?_, ?_, ?_⟩ <;>
      · intro text read rest h
        cases h
  | succ fuel ih =>
    obtain ⟨hvalue, helements, hmembers⟩ := ih
    refine ⟨fun text v rest h => ?_, fun text vs rest h => ?_, fun text members rest h => ?_⟩
    · rw [readValue] at h
      split at h
      case h_5 =>
        split at h
        · cases h
          trivial
        · obtain ⟨p, hread, hsome⟩ := map_eq_some_iff.mp h
          cases hsome
          exact helements _ _ _ hread
      case h_6 =>
        split at h
        · cases h
          exact ⟨List.nodup_nil, trivial⟩
        · obtain ⟨p, hread, hsome⟩ := map_eq_some_iff.mp h
          cases hsome
          exact distinct_ownMembers (hmembers _ _ _ hread)
      case h_4 =>
        obtain ⟨p, -, hsome⟩ := map_eq_some_iff.mp h
        cases hsome
        trivial
      case h_7 =>
        obtain ⟨p, -, hsome⟩ := map_eq_some_iff.mp h
        cases hsome
        trivial
      all_goals
        cases h
        trivial
    · simp only [readElements, bind_eq_bind, bind_eq_some_iff, Prod.exists] at h
      obtain ⟨v, text₁, hread, more, text₂, -, h⟩ := h
      have hv := hvalue _ _ _ hread
      split at h
      · simp only [bind_eq_some_iff, Prod.exists, Option.some.injEq, Prod.mk.injEq] at h
        obtain ⟨vs', text₃, hrest, rfl, -⟩ := h
        exact ⟨hv, helements _ _ _ hrest⟩
      · cases h
        exact ⟨hv, trivial⟩
    · simp only [readMembers, bind_eq_bind, bind_eq_some_iff, Prod.exists] at h
      obtain ⟨key, text₀, -, v, text₁, hread, more, text₂, -, h⟩ := h
      have hv := hvalue _ _ _ hread
      split at h
      · simp only [bind_eq_some_iff, Prod.exists, Option.some.injEq, Prod.mk.injEq] at h
        obtain ⟨members', text₃, hrest, rfl, -⟩ := h
        exact ⟨hv, hmembers _ _ _ hrest⟩
      · cases h
        exact ⟨hv, trivial⟩

/-- **A value that is read has no name twice in an object.** -/
theorem distinct_of_parse {text : List Char} {v : Value} (h : parse text = some v) :
    v.Distinct := by
  simp only [parse, bind_eq_bind, bind_eq_some_iff, Prod.exists] at h
  obtain ⟨v', rest, hread, h⟩ := h
  split at h
  · cases h
    exact (distinct_of_read _).1 _ _ _ hread
  · cases h

end Json
