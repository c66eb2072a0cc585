import XchainWallet.Bridge.BaseUnits
import XchainWallet.Decimal.Canonical
import XchainWallet.Flows.SendLegs

/-!
# The totals of a SEND

`totalsByTick` adds the amounts of the legs under their ticks, trimmed and in upper case, as the
form shows them while rows are typed. Amounts are added as integers over the wider of two fractions,
so that a total is exact at every precision (`totalsByTick_exact`). A text that is no plain decimal
leaves a total as it was. How letters are put in upper case is a parameter.
-/

namespace XchainWallet.SendFlow

open Decimal Keyed

/-- A text of code units as characters; half a surrogate pair is no digit and no space. -/
def unitChars (text : Json.Units) : List Char := text.map fun u => Char.ofNat u.toNat

/-- What `^(\d*)(?:\.(\d+))?$` matches, as an integer and the number of fraction digits. -/
def decimalParts (raw : List Char) : Option Scaled :=
  match (jsTrim raw).span Char.isDigit with
  | (whole, []) => if whole = [] then none else some ⟨digitsValue whole, 0⟩
  | (whole, '.' :: frac) =>
    if frac ≠ [] ∧ frac.all Char.isDigit then
      some ⟨digitsValue ((if whole = [] then ['0'] else whole) ++ frac), frac.length⟩
    else none
  | (_, _ :: _) => none

/-- `addDecimals(a, b)`. The units are not negative, so `fromScaled` writes them as `decimalOf`. -/
def addDecimals (a b : List Char) : List Char :=
  match decimalParts a, decimalParts b with
  | some pa, some pb => fromScaled (pa.add pb).value (pa.add pb).scale
  | _, _ => a

/-- An entry of the map of totals. -/
structure TickTotal where
  tick : Json.Units
  amount : List Char
deriving DecidableEq

section Totals

variable (toUpperCase : Json.Units → Json.Units)

/-- The key that a leg is added under. -/
def SendLeg.key (leg : SendLeg) : Json.Units := toUpperCase (trimUnits leg.tick)

/-- `totals.get(tick) || '0'`. -/
def totalOf (totals : List TickTotal) (tick : Json.Units) : List Char :=
  ((find TickTotal.tick tick totals).map (·.amount)).getD ['0']

def addLeg (totals : List TickTotal) (leg : SendLeg) : List TickTotal :=
  upsert TickTotal.tick
    ⟨leg.key toUpperCase,
      addDecimals (totalOf totals (leg.key toUpperCase)) (unitChars leg.amount)⟩ totals

def totalsByTick (legs : List SendLeg) : List TickTotal := legs.foldl (addLeg toUpperCase) []

/-! ### Exact sums -/

/-- The number that a text is added as: nothing where it cannot be read. -/
def addedAs (raw : List Char) : ℚ := ((decimalParts raw).map Scaled.toRat).getD 0

/-- The text denotes the number, and is read as it. -/
def Reads (raw : List Char) (v : ℚ) : Prop :=
  Denotes raw v ∧ ∃ d, decimalParts raw = some d ∧ d.toRat = v ∧ 0 ≤ d.value

theorem decimalParts_nonneg {raw : List Char} {d : Scaled} (h : decimalParts raw = some d) :
    0 ≤ d.value := by
  unfold decimalParts at h
  split at h
  · split_ifs at h
    obtain ⟨⟩ := h
    exact Int.natCast_nonneg _
  · split_ifs at h
    · obtain ⟨⟩ := h
      exact Int.natCast_nonneg _
    · obtain ⟨⟩ := h
      exact Int.natCast_nonneg _
  · cases h

/-- The text of a plain decimal is read. -/
theorem reads_text {p : Plain} (h : p.Tidy) : Reads p.text p.value := by
  have hspace : jsTrim p.text = p.text := by
    refine jsTrim_eq_self _ fun c hc => ?_
    have hdigit : c = '.' ∨ c.isDigit = true := by
      rw [Plain.text] at hc
      rcases List.mem_append.mp hc with hc | hc
      · exact .inr (List.all_eq_true.mp h.whole.2 c hc)
      · split_ifs at hc
        · cases hc
        · exact (List.mem_cons.mp hc).imp_right fun hc => List.all_eq_true.mp h.frac c hc
    rcases hdigit with rfl | hdigit
    · decide
    · exact isJsSpace_of_isDigit hdigit
  have hparts : decimalParts p.text =
      some ⟨digitsValue (p.whole ++ p.frac), p.frac.length⟩ := by
    rw [decimalParts, hspace, Plain.text]
    split_ifs with hfrac
    · rw [span_digits h.whole.2 (by simp)]
      simp [h.whole.1, hfrac]
    · rw [span_digits h.whole.2 (by simp [Char.isDigit])]
      simp [h.whole.1, hfrac, h.frac]
  have hdenotes := denotes_text h false
  rw [signText, if_neg Bool.false_ne_true, if_neg Bool.false_ne_true, List.nil_append] at hdenotes
  exact ⟨hdenotes, _, hparts, by simp [Scaled.toRat, Plain.value], Int.natCast_nonneg _⟩

theorem reads_addDecimals {a b : List Char} {v : ℚ} (ha : Reads a v) :
    Reads (addDecimals a b) (v + addedAs b) := by
  obtain ⟨hdenotes, pa, hpa, rfl, hnonneg⟩ := ha
  cases hpb : decimalParts b with
  | none =>
    rw [addedAs, addDecimals, hpa, hpb]
    exact ⟨(add_zero pa.toRat).symm ▸ hdenotes, pa, hpa, (add_zero _).symm, hnonneg⟩
  | some pb =>
    have hpb0 := decimalParts_nonneg hpb
    have hsum : 0 ≤ (pa.add pb).value := by
      rw [Scaled.add]
      positivity
    have hwritten : fromScaled (pa.add pb).value (pa.add pb).scale =
        (Plain.ofScaled (pa.add pb).value.natAbs (pa.add pb).scale).trim.text := by
      rw [fromScaled_eq, decide_eq_false (not_lt.mpr hsum)]
      rfl
    have hreads := reads_text (Plain.tidy_ofScaled (pa.add pb).value.natAbs (pa.add pb).scale).trim
    have habs : (((pa.add pb).value.natAbs : ℕ) : ℚ) = ((pa.add pb).value : ℚ) := by
      rw [← Int.cast_natCast, Int.natAbs_of_nonneg hsum]
    rw [Plain.value_trim, Plain.value_ofScaled, habs] at hreads
    rw [addedAs, addDecimals, hpa, hpb, Option.map_some, Option.getD_some, ← Scaled.toRat_add]
    dsimp only
    rw [hwritten]
    exact hreads

/-- The sum of the amounts of the legs of a tick. -/
def sumOf (legs : List SendLeg) (tick : Json.Units) : ℚ :=
  ((legs.filter fun leg => leg.key toUpperCase = tick).map fun leg =>
    addedAs (unitChars leg.amount)).sum

variable {totals : List TickTotal}

/-- One leg adds its amount to its own tick and to no other. -/
theorem reads_addLeg {tick : Json.Units} {v : ℚ} (leg : SendLeg) (h : Reads (totalOf totals tick) v) :
    Reads (totalOf (addLeg toUpperCase totals leg) tick) (v + sumOf toUpperCase [leg] tick) := by
  by_cases hkey : leg.key toUpperCase = tick
  · subst hkey
    have hfind : totalOf (addLeg toUpperCase totals leg) (leg.key toUpperCase) =
        addDecimals (totalOf totals (leg.key toUpperCase)) (unitChars leg.amount) := by
      rw [totalOf, addLeg, find_upsert, if_pos rfl]
      rfl
    rw [hfind]
    simpa [sumOf] using reads_addDecimals (b := unitChars leg.amount) h
  · have hfind : totalOf (addLeg toUpperCase totals leg) tick = totalOf totals tick := by
      rw [totalOf, addLeg, find_upsert, if_neg fun heq => hkey heq.symm, totalOf]
    rw [hfind]
    simpa [sumOf, hkey] using h

theorem reads_foldl_addLeg (legs : List SendLeg) {tick : Json.Units} {v : ℚ}
    (h : Reads (totalOf totals tick) v) :
    Reads (totalOf (legs.foldl (addLeg toUpperCase) totals) tick)
      (v + sumOf toUpperCase legs tick) := by
  induction legs generalizing totals v with
  | nil => simpa [sumOf] using h
  | cons leg legs ih =>
    have hsum : sumOf toUpperCase (leg :: legs) tick =
        sumOf toUpperCase [leg] tick + sumOf toUpperCase legs tick := by
      rw [sumOf, sumOf, sumOf, ← List.sum_append, ← List.map_append, ← List.filter_append]
      rfl
    rw [List.foldl_cons, hsum, ← add_assoc]
    exact ih (reads_addLeg toUpperCase leg h)

theorem ticks_foldl_addLeg (legs : List SendLeg) (h : Distinct TickTotal.tick totals) :
    Distinct TickTotal.tick (legs.foldl (addLeg toUpperCase) totals) ∧
      ∀ tick, tick ∈ (legs.foldl (addLeg toUpperCase) totals).map TickTotal.tick ↔
        tick ∈ totals.map TickTotal.tick ∨ ∃ leg ∈ legs, leg.key toUpperCase = tick := by
  induction legs generalizing totals with
  | nil => exact ⟨h, fun tick => by simp⟩
  | cons leg legs ih =>
    obtain ⟨hdistinct, hticks⟩ := ih (h.upsert (a := ⟨leg.key toUpperCase, _⟩))
    refine ⟨hdistinct, fun tick => ?_⟩
    have hleg := hticks tick
    rw [mem_map_key_upsert, or_assoc] at hleg
    rw [List.exists_mem_cons_iff, List.foldl_cons]
    exact hleg

end Totals

/-! ### Expanding the parameters -/

/-- The leg with an empty memo read as none. -/
def SendLeg.tidy (leg : SendLeg) : SendLeg := { leg with memo := leg.memo.filter (· ≠ []) }

theorem SendLeg.getD_memo_tidy (leg : SendLeg) : leg.tidy.memo.getD [] = leg.memo.getD [] := by
  obtain ⟨recipient, tick, amount, memo⟩ := leg
  cases memo with
  | none => rfl
  | some memo => by_cases hnil : memo = [] <;> simp [tidy, Option.filter, hnil]

/-- What several legs are written as. -/
theorem buildSendParams_several {legs : List SendLeg} (h : 2 ≤ legs.length) :
    buildSendParams legs = pure (.listed (allAgree (legs.map (·.tick)))
      ((allAgree (legs.map fun leg => leg.memo.getD [])).filter (· ≠ []))
      (legs.map (legEntry (allAgree (legs.map (·.tick)))
        (allAgree (legs.map fun leg => leg.memo.getD []))))) := by
  match legs, h with
  | _ :: _ :: _, _ => rfl

/-- Several legs are written as they are without their empty memos. -/
theorem buildSendParams_tidy {legs : List SendLeg} (h : 2 ≤ legs.length) :
    buildSendParams (legs.map SendLeg.tidy) = buildSendParams legs := by
  have hentry : ∀ sharedTick sharedMemo,
      legEntry sharedTick sharedMemo ∘ SendLeg.tidy = legEntry sharedTick sharedMemo := by
    intro sharedTick sharedMemo
    funext leg
    rw [Function.comp_apply, legEntry, legEntry, SendLeg.getD_memo_tidy]
    rfl
  have hmemos : (fun leg : SendLeg => leg.memo.getD []) ∘ SendLeg.tidy =
      fun leg => leg.memo.getD [] := by
    funext leg
    exact leg.getD_memo_tidy
  have hticks : (fun leg : SendLeg => leg.tick) ∘ SendLeg.tidy = fun leg => leg.tick := rfl
  rw [buildSendParams_several h, buildSendParams_several (by rwa [List.length_map])]
  simp only [List.map_map, hentry, hmemos, hticks]

/-- What the parameters of a list of legs stand for. -/
theorem exists_buildSendParams {legs : List SendLeg} (h : legs ≠ []) :
    ∃ params, buildSendParams legs = .ok params ∧
      params.legs = if legs.length = 1 then legs else legs.map SendLeg.tidy := by
  match legs, h with
  | [leg], _ => exact ⟨_, rfl, rfl⟩
  | a :: b :: rest, _ =>
    have hbuilt : ∃ params, buildSendParams (a :: b :: rest) = .ok params := ⟨_, rfl⟩
    obtain ⟨params, hparams⟩ := hbuilt
    refine ⟨params, hparams, ?_⟩
    rw [if_neg (by simp)]
    refine legs_buildSendParams ((buildSendParams_tidy (by simp)).trans hparams) ?_
    rintro _ hleg hmemo
    obtain ⟨leg, -, rfl⟩ := List.mem_map.mp hleg
    have hkept := (Option.filter_eq_some_iff.mp hmemo).2
    simp at hkept

/-- **The parameters stand for their legs, and the totals are exact.** Without legs nothing is
built; several legs come back in order, an empty memo as none. The ticks of the totals are those of
the legs, once each, and a total denotes the sum of the amounts of its legs that can be read. -/
theorem sendLegs_expanded_and_totalled (toUpperCase : Json.Units → Json.Units)
    (legs : List SendLeg) :
    (legs = [] ∧ buildSendParams legs =
        .error (.invalidLegs "buildSendParams: legs must contain at least one recipient") ∨
      ∃ params, buildSendParams legs = .ok params ∧
        params.legs = if legs.length = 1 then legs else legs.map SendLeg.tidy) ∧
      Distinct TickTotal.tick (totalsByTick toUpperCase legs) ∧
      (∀ tick, tick ∈ (totalsByTick toUpperCase legs).map TickTotal.tick ↔
        ∃ leg ∈ legs, leg.key toUpperCase = tick) ∧
      ∀ total ∈ totalsByTick toUpperCase legs,
        Denotes total.amount (sumOf toUpperCase legs total.tick) := by
  have hnone : Distinct TickTotal.tick [] := List.nodup_nil
  obtain ⟨hdistinct, hticks⟩ := ticks_foldl_addLeg toUpperCase legs hnone
  refine ⟨?_, hdistinct, fun tick => by simpa [totalsByTick] using hticks tick, fun total htotal => ?_⟩
  · by_cases hnil : legs = []
    · exact .inl ⟨hnil, by rw [hnil]; rfl⟩
    · exact .inr (exists_buildSendParams hnil)
  · have hzero : Reads (totalOf [] total.tick) 0 := by
      have hread := reads_text (Plain.tidy_ofScaled 0 0)
      rw [Plain.value_ofScaled, Nat.cast_zero, zero_div] at hread
      exact hread
    have hread := (reads_foldl_addLeg toUpperCase legs hzero).1
    rw [zero_add, totalOf, (find_eq_some hdistinct).mpr ⟨htotal, rfl⟩] at hread
    exact hread

private def typedLegs : List SendLeg :=
  [⟨[0x41], [0x50], [0x35], none⟩, ⟨[0x42], [0x50], [0x78], none⟩]

/-- A total is shown where a row of its tick holds a letter in place of an amount. -/
theorem not_totalsByTick_refuses : ¬∀ legs : List SendLeg, ∀ total ∈ totalsByTick id legs,
    ∀ leg ∈ legs, leg.key id = total.tick → (decimalParts (unitChars leg.amount)).isSome := by
  intro h
  exact absurd (h typedLegs) (by decide)

end XchainWallet.SendFlow
