import Mathlib.Data.List.Sort
import XchainWallet.Shared.AmountFormat

/-!
# The order book

The rows of an order book become levels: a row is kept where its price and its size are positive
decimals, the levels are sorted with the best price first, and each level gets the sum of the sizes
up to it. The sum is exact where it reads the sizes that the comparison with zero has read; a size
with a plus before it is compared and not added (`normalizeOrderbook_exact_iff`).
-/

namespace XchainWallet

open Decimal

/-- A row of the response, with its cells as `String` shows them; a field of an object may be
missing. -/
inductive BookRow
  | tuple (cells : List (List Char))
  | object (price amount size : Option (List Char))
  | other

/-- The price and the size of a row. An array with fewer than two cells is an object without the
fields. -/
def BookRow.strings : BookRow → Option (List Char × List Char)
  | tuple (price :: size :: _) => some (price, size)
  | tuple _ => some ([], [])
  | object price amount size => some (price.getD [], (amount.or size).getD [])
  | other => none

/-- A decimal above zero, by the comparison of decimal texts. -/
def AboveZero (text : List Char) : Prop := compareDecimalStrings text ['0'] = some .gt

instance (text : List Char) : Decidable (AboveZero text) := inferInstanceAs (Decidable (_ = _))

/-- A level of a side, with a price and a size above zero. -/
structure BookLevel where
  price : List Char
  displayPrice : List Char
  size : List Char
  displaySize : List Char
  cumulative : List Char
  price_pos : AboveZero price
  size_pos : AboveZero size

/-- The side of a book: bids are best at the highest price, asks at the lowest. -/
inductive BookSide
  | bids
  | asks

/-- `parseLevel(row)` -/
def parseLevel (row : BookRow) : Option BookLevel :=
  match row.strings with
  | none => none
  | some (priceStr, sizeStr) =>
    if hprice : AboveZero priceStr then
      if hsize : AboveZero sizeStr then
        some ⟨priceStr, priceStr, sizeStr, sizeStr, ['0'], hprice, hsize⟩
      else none
    else none

def parseLevels (rows : List BookRow) : List BookLevel := rows.filterMap parseLevel

/-- The comparison of two levels for the sort, which is stable. -/
def compareLevels (side : BookSide) (a b : BookLevel) : Ordering :=
  let compared := (compareDecimalStrings a.price b.price).getD .eq
  match side with
  | .bids => compared.swap
  | .asks => compared

def sortLevels (side : BookSide) (levels : List BookLevel) : List BookLevel :=
  levels.mergeSort fun a b => (compareLevels side a b).isLE

/-- The levels with the sum of the sizes up to each, from a sum before the first. -/
def withCumulative (sum : List Char) : List BookLevel → List BookLevel
  | [] => []
  | level :: levels =>
    let sum := sumDecimals [sum, level.size]
    { level with cumulative := sum } :: withCumulative sum levels

/-- A side of the normalized book. -/
def normalizeSide (side : BookSide) (rows : List BookRow) : List BookLevel :=
  withCumulative ['0'] (sortLevels side (parseLevels rows))

structure Orderbook where
  bids : List BookLevel
  asks : List BookLevel
  maxCumulative : List Char

/-- `normalizeOrderbook(resp)`, of the rows that the response has for each side. -/
def normalizeOrderbook (bids asks : List BookRow) : Orderbook :=
  let bids := normalizeSide .bids bids
  let asks := normalizeSide .asks asks
  let bidsMax := (bids.getLast?.map (·.cumulative)).getD ['0']
  let asksMax := (asks.getLast?.map (·.cumulative)).getD ['0']
  let maxCumulative := if compareDecimalStrings bidsMax asksMax = some .lt then asksMax else bidsMax
  ⟨bids, asks, maxCumulative⟩

/-! ### What a side should be -/

/-- The number that a text is compared as. -/
def amountOf (text : List Char) : ℚ := ((parseDecimal text).map Scaled.toRat).getD 0

/-- The first price is as good as the second. -/
def BookSide.Better : BookSide → ℚ → ℚ → Prop
  | bids, a, b => b ≤ a
  | asks, a, b => a ≤ b

/-- The prices and sizes of the rows in which both are positive. -/
def positiveRows (rows : List BookRow) : List (List Char × List Char) :=
  (rows.filterMap BookRow.strings).filter fun row => AboveZero row.1 ∧ AboveZero row.2

/-- The levels of a side show its rows exactly. -/
structure SideExact (side : BookSide) (rows : List BookRow) (levels : List BookLevel) : Prop where
  /-- The rows with a positive price and size are kept, and no others. -/
  kept : (levels.map fun level => (level.price, level.size)).Perm (positiveRows rows)
  /-- The best price comes first. -/
  sorted : levels.Pairwise fun a b => side.Better (amountOf a.price) (amountOf b.price)
  /-- The cumulative size of a level is the sum of its size and those of all levels before it. -/
  cumulative : ∀ front level back, levels = front ++ level :: back →
    Denotes level.cumulative ((front ++ [level]).map fun l => amountOf l.size).sum
  /-- Cumulative sizes grow. -/
  increasing : levels.Pairwise fun a b =>
    ∀ x y, Denotes a.cumulative x → Denotes b.cumulative y → x < y

/-! ### Rows and levels -/

/-- What is above zero is a decimal, and greater than zero. -/
theorem aboveZero_iff {text : List Char} :
    AboveZero text ↔ ∃ d, parseDecimal text = some d ∧ 0 < d.toRat := by
  have hzero : parseDecimal ['0'] = some ⟨0, 0⟩ := by decide
  have hvalue : (Scaled.mk 0 0).toRat = 0 := by
    rw [Scaled.toRat]
    simp
  cases htext : parseDecimal text with
  | none =>
    rw [AboveZero, compareDecimalStrings, htext]
    exact iff_of_false (by simp) (by rintro ⟨d, hd, -⟩; cases hd)
  | some d =>
    rw [AboveZero, compareDecimalStrings_parsed htext hzero, hvalue, Option.some_inj,
      compare_gt_iff_gt]
    constructor
    · exact fun hpos => ⟨d, rfl, hpos⟩
    · rintro ⟨e, he, hpos⟩
      rwa [Option.some.inj he]

theorem amountOf_parsed {text : List Char} {d : Scaled} (h : parseDecimal text = some d) :
    amountOf text = d.toRat := by
  rw [amountOf, h, Option.map_some, Option.getD_some]

theorem amountOf_pos {text : List Char} (h : AboveZero text) : 0 < amountOf text := by
  obtain ⟨d, hd, hpos⟩ := aboveZero_iff.mp h
  rwa [amountOf_parsed hd]

/-- A level is the price and the size of its row. -/
theorem parseLevels_strings (rows : List BookRow) :
    (parseLevels rows).map (fun level => (level.price, level.size)) = positiveRows rows := by
  induction rows with
  | nil => rfl
  | cons row rows ih =>
    rw [parseLevels, positiveRows] at ih ⊢
    cases hrow : row.strings with
    | none =>
      have hnone : parseLevel row = none := by rw [parseLevel, hrow]
      rw [List.filterMap_cons_none hnone, List.filterMap_cons_none hrow, ih]
    | some cells =>
      obtain ⟨price, size⟩ := cells
      rw [List.filterMap_cons_some hrow]
      by_cases hboth : AboveZero price ∧ AboveZero size
      · have hsome : parseLevel row = some ⟨price, price, size, size, ['0'], hboth.1, hboth.2⟩ := by
          rw [parseLevel, hrow]
          simp only [dif_pos hboth.1, dif_pos hboth.2]
        rw [List.filterMap_cons_some hsome, List.map_cons, ih, List.filter_cons,
          if_pos (decide_eq_true hboth)]
      · have hnone : parseLevel row = none := by
          rw [parseLevel, hrow]
          by_cases hprice : AboveZero price
          · simp only [dif_pos hprice, dif_neg fun hsize => hboth ⟨hprice, hsize⟩]
          · simp only [dif_neg hprice]
        rw [List.filterMap_cons_none hnone, ih, List.filter_cons,
          if_neg (fun htrue => hboth (of_decide_eq_true htrue))]

/-! ### Sorting -/

/-- Levels compare as their prices do. -/
theorem compareLevels_isLE {side : BookSide} {a b : BookLevel} :
    (compareLevels side a b).isLE ↔ side.Better (amountOf a.price) (amountOf b.price) := by
  obtain ⟨d, hd, -⟩ := aboveZero_iff.mp a.price_pos
  obtain ⟨e, he, -⟩ := aboveZero_iff.mp b.price_pos
  have hcompared := compareDecimalStrings_parsed hd he
  rw [amountOf_parsed hd, amountOf_parsed he]
  cases side with
  | bids =>
    rw [compareLevels, hcompared, Option.getD_some, Ordering.isLE_swap, BookSide.Better,
      Ordering.isGE_iff_ne_lt, compare_lt_iff_lt, not_lt]
  | asks =>
    rw [compareLevels, hcompared, Option.getD_some, BookSide.Better, Ordering.isLE_iff_ne_gt,
      compare_gt_iff_gt, not_lt]

theorem sortLevels_sorted (side : BookSide) (levels : List BookLevel) :
    (sortLevels side levels).Pairwise
      fun a b => side.Better (amountOf a.price) (amountOf b.price) := by
  have hpairwise : (sortLevels side levels).Pairwise
      fun a b => (compareLevels side a b).isLE := by
    refine List.pairwise_mergeSort (fun a b c hab hbc => ?_) (fun a b => ?_) levels
    · rw [compareLevels_isLE] at hab hbc ⊢
      cases side with
      | bids => exact le_trans hbc hab
      | asks => exact le_trans hab hbc
    · rw [Bool.or_eq_true, compareLevels_isLE, compareLevels_isLE]
      cases side with
      | bids | asks => exact le_total _ _
  exact hpairwise.imp fun h => compareLevels_isLE.mp h

/-! ### Sums -/

/-- The size of the level is read by the sum, too: it has no plus before it. -/
def Unsigned (size : List Char) : Prop := (jsTrim size).head? ≠ some '+'

instance (size : List Char) : Decidable (Unsigned size) := inferInstanceAs (Decidable (_ ≠ _))

/-- A text that a sum reads as a number. -/
def ReadAs (text : List Char) (v : ℚ) : Prop :=
  ∃ entry, SumEntry.read text = some entry ∧ entry.value = v

/-- One level adds its size, or nothing. -/
theorem sumDecimals_pair {sum : List Char} {v : ℚ} (hsum : ReadAs sum v) (level : BookLevel) :
    let total := if Unsigned level.size then v + amountOf level.size else v
    ReadAs (sumDecimals [sum, level.size]) total ∧
      Denotes (sumDecimals [sum, level.size]) total := by
  obtain ⟨entry, hentry, rfl⟩ := hsum
  obtain ⟨d, hd, -⟩ := aboveZero_iff.mp level.size_pos
  have hread := SumEntry.read_parsed hd
  have htotal : (([sum, level.size].filterMap SumEntry.read).map SumEntry.value).sum =
      if Unsigned level.size then entry.value + amountOf level.size else entry.value := by
    rw [List.filterMap_cons_some hentry]
    by_cases hunsigned : Unsigned level.size
    · have hplus : ¬(jsTrim level.size).head? = some '+' := hunsigned
      rw [if_neg hplus] at hread
      obtain ⟨size, hsize, hvalue⟩ := hread
      rw [List.filterMap_cons_some hsize, if_pos hunsigned, amountOf_parsed hd, ← hvalue]
      simp
    · rw [if_pos (not_not.mp hunsigned)] at hread
      rw [List.filterMap_cons_none hread, if_neg hunsigned]
      simp
  have hreadBack := SumEntry.read_sumDecimals [sum, level.size]
  have hdenotes := denotes_sumDecimals [sum, level.size]
  rw [htotal] at hreadBack hdenotes
  exact ⟨hreadBack, hdenotes⟩

/-- The levels keep their prices and sizes. -/
theorem withCumulative_strings (sum : List Char) (levels : List BookLevel) :
    (withCumulative sum levels).map (fun level => (level.price, level.size)) =
      levels.map fun level => (level.price, level.size) := by
  induction levels generalizing sum with
  | nil => rfl
  | cons level levels ih =>
    rw [withCumulative, List.map_cons, List.map_cons, ih]

variable {levels : List BookLevel}

/-- Where the sums read all sizes the cumulative sizes are exact, from a sum before the first. -/
theorem withCumulative_exact {sum : List Char} {v : ℚ} (hsum : ReadAs sum v)
    (hread : ∀ level ∈ levels, Unsigned level.size) {front back : List BookLevel}
    {level : BookLevel} (hlevel : withCumulative sum levels = front ++ level :: back) :
    Denotes level.cumulative (v + ((front ++ [level]).map fun l => amountOf l.size).sum) := by
  induction levels generalizing sum v front with
  | nil => cases front <;> cases hlevel
  | cons next levels ih =>
    rw [List.forall_mem_cons] at hread
    obtain ⟨hnext, hdenotes⟩ := sumDecimals_pair hsum next
    rw [if_pos hread.1] at hnext hdenotes
    rw [withCumulative] at hlevel
    cases front with
    | nil =>
      obtain ⟨rfl, -⟩ := List.cons.inj hlevel
      simpa using hdenotes
    | cons first front =>
      obtain ⟨rfl, hrest⟩ := List.cons.inj hlevel
      have hlast := ih hnext hread.2 hrest
      rw [List.cons_append, List.map_cons, List.sum_cons, ← add_assoc]
      exact hlast

/-- Where the cumulative sizes are exact the sums have read all sizes. -/
theorem unsigned_of_exact {sum : List Char} {v : ℚ} (hsum : ReadAs sum v)
    (hexact : ∀ front level back, withCumulative sum levels = front ++ level :: back →
      Denotes level.cumulative (v + ((front ++ [level]).map fun l => amountOf l.size).sum)) :
    ∀ level ∈ levels, Unsigned level.size := by
  induction levels generalizing sum v with
  | nil => simp
  | cons next levels ih =>
    obtain ⟨hnext, hdenotes⟩ := sumDecimals_pair hsum next
    have hfirst := hexact [] _ _ rfl
    have hread : Unsigned next.size := by
      by_contra hplus
      -- a size that is left out leaves the sum as it was
      rw [if_neg hplus] at hdenotes
      have hsame := hdenotes.unique hfirst
      have hpos := amountOf_pos next.size_pos
      simp at hsame
      rw [hsame] at hpos
      exact lt_irrefl _ hpos
    rw [if_pos hread] at hnext
    rw [List.forall_mem_cons]
    refine ⟨hread, ih hnext fun front level back hlevel => ?_⟩
    have hrest := hexact (_ :: front) level back (congrArg (_ :: ·) hlevel)
    rw [List.cons_append, List.map_cons, List.sum_cons, ← add_assoc] at hrest
    exact hrest

/-- Exact cumulative sizes grow, since every size is positive. -/
theorem increasing_of_cumulative
    (h : ∀ front level back, levels = front ++ level :: back →
      Denotes level.cumulative ((front ++ [level]).map fun l => amountOf l.size).sum) :
    levels.Pairwise fun a b => ∀ x y, Denotes a.cumulative x → Denotes b.cumulative y → x < y := by
  -- over the levels that are left, with those before them in `done`
  have hrest : ∀ done rest, levels = done ++ rest → rest.Pairwise fun a b =>
      ∀ x y, Denotes a.cumulative x → Denotes b.cumulative y → x < y := by
    intro done rest hsplit
    induction rest generalizing done with
    | nil => exact List.Pairwise.nil
    | cons a rest ih =>
      refine List.Pairwise.cons (fun b hb x y hx hy => ?_) (ih (done ++ [a]) (by simp [hsplit]))
      obtain ⟨between, back, rfl⟩ := List.append_of_mem hb
      have hxsum := hx.unique (h done a _ hsplit)
      have hysum := hy.unique (h (done ++ a :: between) b back (by simp [hsplit]))
      have hnonneg : 0 ≤ (between.map fun l => amountOf l.size).sum :=
        List.sum_nonneg fun v hv => by
          obtain ⟨l, -, rfl⟩ := List.mem_map.mp hv
          exact (amountOf_pos l.size_pos).le
      have hpos := amountOf_pos b.size_pos
      rw [hxsum, hysum]
      simp only [List.map_append, List.map_cons, List.map_nil, List.sum_append, List.sum_cons,
        List.sum_nil]
      linarith
  exact hrest [] levels rfl

/-! ### The book -/

/-- The rows of a side that are kept have no plus before their sizes. -/
def SizesUnsigned (rows : List BookRow) : Prop := ∀ row ∈ positiveRows rows, Unsigned row.2

theorem sideExact_iff (side : BookSide) (rows : List BookRow) :
    SideExact side rows (normalizeSide side rows) ↔ SizesUnsigned rows := by
  obtain ⟨levels, hlevels⟩ : ∃ levels, sortLevels side (parseLevels rows) = levels := ⟨_, rfl⟩
  have hperm : levels.Perm (parseLevels rows) := by
    rw [← hlevels]
    exact List.mergeSort_perm _ _
  have hkept : (levels.map fun level => (level.price, level.size)).Perm (positiveRows rows) := by
    rw [← parseLevels_strings]
    exact hperm.map _
  have hread : SizesUnsigned rows ↔ ∀ level ∈ levels, Unsigned level.size := by
    constructor
    · intro h level hlevel
      exact h _ (hkept.mem_iff.mp (List.mem_map.mpr ⟨level, hlevel, rfl⟩))
    · intro h row hrow
      obtain ⟨level, hlevel, rfl⟩ := List.mem_map.mp (hkept.mem_iff.mpr hrow)
      exact h level hlevel
  have hzero : ReadAs ['0'] 0 := by
    refine ⟨⟨false, ⟨['0'], []⟩⟩, rfl, ?_⟩
    have hdigits : digitsValue ['0'] = 0 := digitsValue_replicate_zero 1
    rw [SumEntry.value, Plain.value, List.append_nil, hdigits]
    simp
  rw [normalizeSide, hlevels, hread]
  constructor
  · intro hexact
    refine unsigned_of_exact hzero fun front level back hlevel => ?_
    rw [zero_add]
    exact hexact.cumulative front level back hlevel
  · intro hunsigned
    have hcumulative : ∀ front level back, withCumulative ['0'] levels = front ++ level :: back →
        Denotes level.cumulative ((front ++ [level]).map fun l => amountOf l.size).sum := by
      intro front level back hlevel
      have hexact := withCumulative_exact hzero hunsigned hlevel
      rwa [zero_add] at hexact
    refine ⟨?_, ?_, hcumulative, increasing_of_cumulative hcumulative⟩
    · rw [withCumulative_strings]
      exact hkept
    · have hsorted := sortLevels_sorted side (parseLevels rows)
      have hprices : (withCumulative ['0'] levels).map (·.price) = levels.map (·.price) := by
        have hstrings := congrArg (List.map Prod.fst) (withCumulative_strings ['0'] levels)
        rwa [List.map_map, List.map_map] at hstrings
      rw [hlevels] at hsorted
      have hpairwise : (levels.map (·.price)).Pairwise
          fun p q => side.Better (amountOf p) (amountOf q) := List.pairwise_map.mpr hsorted
      rw [← hprices, List.pairwise_map] at hpairwise
      exact hpairwise

/-- **When the book is exact.** Both sides are sorted, keep the rows with a positive price and size
and sum them up exactly, if and only if no such row has a plus before its size. -/
theorem normalizeOrderbook_exact_iff (bids asks : List BookRow) :
    SideExact .bids bids (normalizeOrderbook bids asks).bids ∧
        SideExact .asks asks (normalizeOrderbook bids asks).asks ↔
      SizesUnsigned bids ∧ SizesUnsigned asks :=
  and_congr (sideExact_iff .bids bids) (sideExact_iff .asks asks)

/-- A level of three with a plus before its size is shown, and adds nothing. -/
theorem not_normalizeOrderbook_exact :
    ¬SideExact .bids
      [.tuple ["7".toList, "2".toList], .tuple ["6".toList, "+3".toList]]
      (normalizeOrderbook
        [.tuple ["7".toList, "2".toList], .tuple ["6".toList, "+3".toList]] []).bids := by
  intro hexact
  have hunsigned := (sideExact_iff .bids _).mp hexact ("6".toList, "+3".toList)
    (by decide)
  exact absurd hunsigned (by decide)

end XchainWallet
