import XchainWallet.Checks.Refuse
import XchainWallet.Js.Text
import XchainWallet.Json.Reading

/-!
# The recipients of a SEND

A request names one recipient, or a list of legs with its own tick and memo as their defaults. Each
is shaped into texts: shown as `String` shows it and trimmed, an empty memo dropped. One leg gives
flat parameters; several give `LEGS`, with a tick or a memo that all legs share hoisted to the top.
Hoisting loses nothing (`legs_buildSendParams`).
-/

namespace XchainWallet.SendFlow

open Checks Json

/-! ### Reading values -/

def isNullish (v : Option Value) : Bool :=
  match v with
  | none => true
  | some .null => true
  | some _ => false

/-- `a ?? b`. -/
def coalesce (a b : Option Value) : Option Value := if isNullish a then b else a

def isSpaceUnit (u : UInt16) : Bool := isJsSpace (Char.ofNat u.toNat)

/-- `trim()`. -/
def trimUnits (text : Units) : Units :=
  ((text.dropWhile isSpaceUnit).reverse.dropWhile isSpaceUnit).reverse

/-! ### Legs -/

/-- The recipient is the field `to`. -/
structure SendLeg where
  recipient : Units
  tick : Units
  amount : Units
  memo : Option Units
deriving DecidableEq

/-- The values of a leg before they are read. -/
structure LegInput where
  recipient : Option Value
  tick : Option Value
  amount : Option Value
  memo : Option Value

inductive SendError
  | required (fnName field : String)
  | unreadable
  | invalidLegs (message : String)
  | tooManyLegs (fnName : String) (legCount : ℕ)
deriving DecidableEq

def MAX_SEND_LEGS : ℕ := 10

def SendError.message : SendError → String
  | required fnName field => fnName ++ ": " ++ field ++ " is required"
  | unreadable => "Cannot convert object to primitive value"
  | invalidLegs message => message
  | tooManyLegs fnName legCount =>
    fnName ++ ": a single send carries at most " ++ toString MAX_SEND_LEGS ++ " recipients (got " ++
      toString legCount ++ "). Use an airdrop for a larger distribution."

/-- `String(v)`. -/
def read (v : Option Value) : Except SendError Units := orRefuse (shown v) .unreadable

/-- The memo of a leg; an empty one is none. -/
def readMemo (v : Option Value) : Except SendError (Option Units) :=
  if isNullish v then pure none
  else do
    let memo ← read v
    pure (if memo = [] then none else some memo)

def singleLeg (leg : LegInput) (fnName : String) : Except SendError SendLeg := do
  refuseIf (truthy leg.recipient = false) (.required fnName "to")
  refuseIf (truthy leg.tick = false) (.required fnName "tick")
  refuseIf (isNullish leg.amount = true) (.required fnName "amount")
  let amount ← read leg.amount
  refuseIf (trimUnits amount = []) (.required fnName "amount")
  let recipient ← read leg.recipient
  let tick ← read leg.tick
  let memo ← readMemo leg.memo
  pure ⟨trimUnits recipient, trimUnits tick, trimUnits amount, memo⟩

/-- The values of a request. -/
structure SendRequest extends LegInput where
  legs : Option Value

structure NormalizedLegs where
  legs : List SendLeg
  isMulti : Bool

/-- The values of a listed leg, with the request's own tick and memo for those it lacks. -/
def legInput (opts : SendRequest) (leg : Value) : Except SendError LegInput := do
  let tick := leg.prop "tick"
  let given ← if isNullish tick then pure [] else (fun shown => trimUnits shown) <$> read tick
  let memo := leg.prop "memo"
  pure
    { recipient := leg.prop "to"
      tick := if given = [] then opts.tick else tick
      amount := leg.prop "amount"
      memo := if memo.isSome then memo else opts.memo }

def listedLeg (opts : SendRequest) (fnName : String) (leg : Value × ℕ) : Except SendError SendLeg := do
  let name := fnName ++ ": legs[" ++ toString leg.2 ++ "]"
  match leg.1 with
  | .obj members =>
    let input ← legInput opts (.obj members)
    singleLeg input name
  | _ => .error (.invalidLegs (name ++ " must be a recipient object"))

def normalizeSendLegs (opts : SendRequest) (fnName : String) : Except SendError NormalizedLegs :=
  match opts.legs with
  | none => (fun leg => ⟨[leg], false⟩) <$> singleLeg opts.toLegInput fnName
  | some .null => (fun leg => ⟨[leg], false⟩) <$> singleLeg opts.toLegInput fnName
  | some (.arr raw) => do
    refuseIf (raw = []) (.invalidLegs (fnName ++ ": legs must contain at least one recipient"))
    refuseIf (MAX_SEND_LEGS < raw.length) (.tooManyLegs fnName raw.length)
    let legs ← raw.zipIdx.mapM (listedLeg opts fnName)
    pure ⟨legs, decide (1 < legs.length)⟩
  | some _ => .error (.invalidLegs (fnName ++ ": legs must be an array of recipients"))

/-- What a value is signed as: the text that `String` shows, trimmed. -/
def SignedAs (v : Option Value) (signed : Units) : Prop :=
  ∃ text, shown v = some text ∧ signed = trimUnits text

/-- What a memo is signed as: the text that `String` shows, and none where that is empty or where
there is no value. -/
def MemoSignedAs (v : Option Value) (signed : Option Units) : Prop :=
  isNullish v = true ∧ signed = none ∨
    isNullish v = false ∧ ∃ text, shown v = some text ∧ signed = if text = [] then none else some text

theorem readMemo_eq_ok {v : Option Value} {memo : Option Units} (h : readMemo v = .ok memo) :
    MemoSignedAs v memo := by
  unfold readMemo at h
  split at h
  · rename_i hnull
    exact .inl ⟨hnull, (pure_eq_ok.mp h).symm⟩
  · rename_i hsome
    obtain ⟨text, htext, h⟩ := bind_eq_ok.mp h
    exact .inr ⟨Bool.eq_false_iff.mpr hsome, text, orRefuse_eq_ok.mp htext, (pure_eq_ok.mp h).symm⟩

/-- **A leg is its values as texts.** -/
theorem singleLeg_eq_ok {input : LegInput} {fnName : String} {leg : SendLeg}
    (h : singleLeg input fnName = .ok leg) :
    SignedAs input.recipient leg.recipient ∧ SignedAs input.tick leg.tick ∧
      SignedAs input.amount leg.amount ∧ MemoSignedAs input.memo leg.memo := by
  unfold singleLeg at h
  obtain ⟨_, -, h⟩ := bind_eq_ok.mp h
  obtain ⟨_, -, h⟩ := bind_eq_ok.mp h
  obtain ⟨_, -, h⟩ := bind_eq_ok.mp h
  obtain ⟨amount, hamount, h⟩ := bind_eq_ok.mp h
  obtain ⟨_, -, h⟩ := bind_eq_ok.mp h
  obtain ⟨recipient, hrecipient, h⟩ := bind_eq_ok.mp h
  obtain ⟨tick, htick, h⟩ := bind_eq_ok.mp h
  obtain ⟨memo, hmemo, h⟩ := bind_eq_ok.mp h
  obtain rfl := pure_eq_ok.mp h
  exact ⟨⟨recipient, orRefuse_eq_ok.mp hrecipient, rfl⟩, ⟨tick, orRefuse_eq_ok.mp htick, rfl⟩,
    ⟨amount, orRefuse_eq_ok.mp hamount, rfl⟩, readMemo_eq_ok hmemo⟩

/-! ### Parameters -/

structure LegEntry where
  AMOUNT : Units
  DESTINATION : Units
  TICK : Option Units
  MEMO : Option Units
deriving DecidableEq

inductive SendParams
  | flat (TICK AMOUNT DESTINATION : Units) (MEMO : Option Units)
  | listed (TICK MEMO : Option Units) (LEGS : List LegEntry)
deriving DecidableEq

/-- The one value that all share, and `none` where they differ. -/
def allAgree : List Units → Option Units
  | [] => none
  | first :: rest => if rest.all (· = first) then some first else none

/-- The entry of a leg beside what all legs share. -/
def legEntry (sharedTick sharedMemo : Option Units) (leg : SendLeg) : LegEntry :=
  { AMOUNT := leg.amount
    DESTINATION := leg.recipient
    TICK := if sharedTick = none then some leg.tick else none
    MEMO := if sharedMemo = none then some (leg.memo.getD []) else none }

def buildSendParams (legs : List SendLeg) : Except SendError SendParams :=
  match legs with
  | [] => .error (.invalidLegs "buildSendParams: legs must contain at least one recipient")
  | [leg] => pure (.flat leg.tick leg.amount leg.recipient leg.memo)
  | legs =>
    let sharedTick := allAgree (legs.map (·.tick))
    let sharedMemo := allAgree (legs.map fun leg => leg.memo.getD [])
    pure (.listed sharedTick (sharedMemo.filter (· ≠ []))
      (legs.map (legEntry sharedTick sharedMemo)))

/-- The leg that an entry stands for: what it does not name it has from the top, and an empty memo
is none. -/
def LegEntry.leg (TICK MEMO : Option Units) (entry : LegEntry) : SendLeg :=
  { recipient := entry.DESTINATION
    tick := (entry.TICK.or TICK).getD []
    amount := entry.AMOUNT
    memo := (entry.MEMO.or MEMO).filter (· ≠ []) }

/-- The legs that parameters stand for. -/
def SendParams.legs : SendParams → List SendLeg
  | .flat TICK AMOUNT DESTINATION MEMO => [⟨DESTINATION, TICK, AMOUNT, MEMO⟩]
  | .listed TICK MEMO LEGS => LEGS.map (LegEntry.leg TICK MEMO)

theorem eq_of_allAgree {texts : List Units} {shared : Units} (h : allAgree texts = some shared) :
    ∀ text ∈ texts, text = shared := by
  cases texts with
  | nil => exact absurd h.symm (Option.some_ne_none _)
  | cons first rest =>
    rw [allAgree] at h
    split at h
    · rename_i hall
      obtain ⟨⟩ := h
      intro text htext
      obtain rfl | htext := List.mem_cons.mp htext
      · rfl
      · exact of_decide_eq_true (List.all_eq_true.mp hall text htext)
    · exact absurd h.symm (Option.some_ne_none _)

theorem leg_legEntry {sharedTick sharedMemo : Option Units} {leg : SendLeg}
    (htick : ∀ shared, sharedTick = some shared → leg.tick = shared)
    (hmemo : ∀ shared, sharedMemo = some shared → leg.memo.getD [] = shared)
    (hne : leg.memo ≠ some []) :
    (legEntry sharedTick sharedMemo leg).leg sharedTick (sharedMemo.filter (· ≠ [])) = leg := by
  have hfilter : (some (leg.memo.getD [])).filter (· ≠ []) = leg.memo := by
    cases hm : leg.memo with
    | none => rfl
    | some memo =>
      have hnil : memo ≠ [] := fun hnil => hne (by rw [hm, hnil])
      simp [Option.filter, hnil]
  have hreadTick : ((legEntry sharedTick sharedMemo leg).TICK.or sharedTick).getD [] = leg.tick := by
    cases hshared : sharedTick with
    | none => rfl
    | some shared => exact (htick shared hshared).symm
  have hreadMemo : ((legEntry sharedTick sharedMemo leg).MEMO.or
      (sharedMemo.filter (· ≠ []))).filter (· ≠ []) = leg.memo := by
    cases hshared : sharedMemo with
    | none => exact hfilter
    | some shared =>
      rw [← hmemo shared hshared]
      simp only [legEntry, reduceCtorEq, if_false, Option.none_or, hfilter]
      rw [← hfilter, Option.filter_filter]
      simp
  rw [LegEntry.leg, hreadTick, hreadMemo]
  rfl

/-- **Hoisting loses nothing.** The parameters stand for the legs they were built from. -/
theorem legs_buildSendParams {legs : List SendLeg} {params : SendParams}
    (h : buildSendParams legs = .ok params) (hmemo : ∀ leg ∈ legs, leg.memo ≠ some []) :
    params.legs = legs := by
  unfold buildSendParams at h
  split at h
  · exact absurd h (by simp)
  · obtain rfl := pure_eq_ok.mp h
    rfl
  · rw [← pure_eq_ok.mp h, SendParams.legs, List.map_map]
    conv_rhs => rw [← List.map_id legs]
    refine List.map_congr_left fun leg hleg => leg_legEntry ?_ ?_ (hmemo leg hleg)
    · exact fun shared hshared => eq_of_allAgree hshared _ (List.mem_map_of_mem hleg)
    · intro shared hshared
      exact eq_of_allAgree hshared (leg.memo.getD []) (List.mem_map.mpr ⟨leg, hleg, rfl⟩)

end XchainWallet.SendFlow
