import XchainWallet.Js.Text
import XchainWallet.Transition.Run

/-!
# Coins that the wallet's own sends are spending

Every surface of the wallet claims the inputs of a send before it signs, so that no other surface
builds a payment over the same coins. A claim lasts `holdMs`, and as long again from a broadcast
(`keep`); a queued send that goes out holds its coins from then on (`hold`); a send that ends
without a broadcast frees them (`release`). Claims expire by the clock, and a claim or a hold
purges the ones that have.

Once the store is loaded every call runs to its end without an `await` before it changes the
ledger, so the ledger changes one call at a time. Two claims may stand over one coin if they are
of one send, which is known by a txid: `names` lists the txids under which each claim has gone.
-/

namespace XchainWallet

/-! ### Keys -/

/-- An output of a transaction. -/
structure Outpoint where
  txid : String
  vout : ℕ
  deriving DecidableEq

def keyOf (chainId : String) (o : Outpoint) : String :=
  chainId ++ "|" ++ lowerCase o.txid ++ ":" ++ toString o.vout

/-- The key of a token name whose ownership is for sale. -/
def nameKeyOf (chainId tick : String) : String := chainId ++ "|name:" ++ upperCase tick

def txidKey (txid : String) : String := lowerCase (String.ofList (jsTrim txid.toList))

/-! ### The ledger -/

/-- The id of a claim: the time at which it was made, and its number. -/
structure ClaimId where
  time : ℤ
  number : ℕ
  deriving DecidableEq

/-- A coin or a name under a claim, until a time; with its txid once it has gone out. -/
structure OwnSpend where
  key : String
  claim : ClaimId
  until' : ℤ
  txid : Option String
  deriving DecidableEq

/-- The entry of a send that went out: its end, and its txid where that is known. -/
def OwnSpend.kept (e : OwnSpend) (until' : ℤ) (sent : String) : OwnSpend :=
  { e with until' := until', txid := if sent = "" then e.txid else some sent }

theorem OwnSpend.kept_txid (e : OwnSpend) (until' : ℤ) (sent : String) :
    (e.kept until' sent).txid = if sent = "" then e.txid else some sent := rfl

structure OwnSpendLedger where
  now : ℤ
  held : List OwnSpend
  nextClaim : ℕ
  names : List (ClaimId × String)
  deriving DecidableEq

/-- The answer to a claim: nothing to claim, a name or coins that are taken, or the claim. -/
inductive ClaimAnswer
  | nothing
  | nameSaleInFlight (listed : String)
  | inputsAlreadySpent (spent : List Outpoint)
  | claimed (id : ClaimId)
  deriving DecidableEq

/-- What a send claims: its inputs, the outpoints of the sends that wait in the queue, its txid
where it has one, and the names that it sells. -/
structure ClaimCall where
  chainId : String
  outpoints : List Outpoint
  queued : List Outpoint
  txid : String
  names : List String
  deriving DecidableEq

namespace ClaimCall

/-- The names that the send sells. -/
def sold (call : ClaimCall) : List String := (call.names.filter (· ≠ "")).map upperCase

/-- The keys that the send claims. -/
def keys (call : ClaimCall) : List String :=
  call.outpoints.map (keyOf call.chainId) ++ call.sold.map (nameKeyOf call.chainId)

end ClaimCall

namespace OwnSpendLedger

/-- A ledger that has loaded what the store holds. -/
def start (now : ℤ) (loaded : List OwnSpend) : OwnSpendLedger where
  now := now
  held := loaded
  nextClaim := 0
  names := loaded.flatMap fun e => e.txid.toList.map fun txid => (e.claim, txid)

/-- The ledger without the claims that have expired. -/
def purge (s : OwnSpendLedger) : OwnSpendLedger :=
  { s with held := s.held.filter (s.now < ·.until') }

/-- A new claim over the keys. `sent` is its txid where it has gone out already, and `name` the
txid under which it goes. -/
def add (holdMs : ℤ) (s : OwnSpendLedger) (keys : List String) (sent : Option String)
    (name : String) : OwnSpendLedger :=
  let id : ClaimId := ⟨s.now, s.nextClaim + 1⟩
  { s with
    nextClaim := s.nextClaim + 1
    held := s.held ++ keys.map fun key => ⟨key, id, s.now + holdMs, sent⟩
    names := s.names ++ if name = "" then [] else [(id, name)] }

/-- The keys that stand against a claim: what is held, the claims of the same transaction apart. -/
def taken (s : OwnSpendLedger) (same : String) : List String :=
  (s.held.filter fun e => same = "" ∨ e.txid ≠ some same).map OwnSpend.key

/-- `claim`: refuse what is taken, or add a claim. -/
def claim (holdMs : ℤ) (s : OwnSpendLedger) (call : ClaimCall) : ClaimAnswer × OwnSpendLedger :=
  if call.outpoints = [] ∧ call.sold = [] then (.nothing, s)
  else
    let s' := s.purge
    let taken := s'.taken (txidKey call.txid)
    match call.sold.find? fun n => nameKeyOf call.chainId n ∈ taken with
    | some listed => (.nameSaleInFlight listed, s')
    | none =>
      let spent := call.outpoints.filter fun o =>
        keyOf call.chainId o ∈ taken ++ call.queued.map (keyOf call.chainId)
      if spent ≠ [] then (.inputsAlreadySpent spent, s')
      else (.claimed ⟨s.now, s.nextClaim + 1⟩, s'.add holdMs call.keys none (txidKey call.txid))

/-- `keep`: the send went out, under its txid where that is known. -/
def keep (holdMs : ℤ) (s : OwnSpendLedger) (claim : ClaimId) (txid : String) : OwnSpendLedger :=
  let sent := txidKey txid
  { s with
    held := s.held.map fun e => if e.claim = claim then e.kept (s.now + holdMs) sent else e
    names := s.names ++
      if sent = "" ∨ ∀ e ∈ s.held, e.claim ≠ claim then [] else [(claim, sent)] }

/-- `hold`: a queued send went out. -/
def hold (holdMs : ℤ) (s : OwnSpendLedger) (chainId : String) (outpoints : List Outpoint)
    (txid : String) : OwnSpendLedger :=
  if outpoints = [] then s
  else
    let sent := txidKey txid
    s.purge.add holdMs (outpoints.map (keyOf chainId)) (if sent = "" then none else some sent) sent

/-- `release`: the send ended without a broadcast. -/
def release (s : OwnSpendLedger) (claim : ClaimId) : OwnSpendLedger :=
  { s with held := s.held.filter (·.claim ≠ claim) }

end OwnSpendLedger

/-- What can happen: the clock goes on, or the ledger is called. -/
inductive SpendAct
  | clock (now : ℤ)
  | claim (call : ClaimCall)
  | keep (claim : ClaimId) (txid : String)
  | hold (chainId : String) (outpoints : List Outpoint) (txid : String)
  | release (claim : ClaimId)

namespace OwnSpendLedger

def step (holdMs : ℤ) (s : OwnSpendLedger) : SpendAct → Option OwnSpendLedger
  | .clock now => if s.now ≤ now then some { s with now := now } else none
  | .claim call => some (s.claim holdMs call).2
  | .keep claim txid => some (s.keep holdMs claim txid)
  | .hold chainId outpoints txid => some (s.hold holdMs chainId outpoints txid)
  | .release claim => some (s.release claim)

/-! ### Equations -/

theorem mem_purge {s : OwnSpendLedger} {e : OwnSpend} :
    e ∈ s.purge.held ↔ e ∈ s.held ∧ s.now < e.until' := by
  simp [purge, List.mem_filter]

theorem mem_add {holdMs : ℤ} {s : OwnSpendLedger} {keys : List String} {sent : Option String}
    {name : String} {e : OwnSpend} :
    e ∈ (s.add holdMs keys sent name).held ↔
      e ∈ s.held ∨ e.key ∈ keys ∧
        e = ⟨e.key, ⟨s.now, s.nextClaim + 1⟩, s.now + holdMs, sent⟩ := by
  simp only [add, List.mem_append, List.mem_map]
  refine or_congr_right ⟨?_, ?_⟩
  · rintro ⟨key, hkey, rfl⟩
    exact ⟨hkey, rfl⟩
  · rintro ⟨hkey, he⟩
    exact ⟨e.key, hkey, he.symm⟩

theorem mem_taken {s : OwnSpendLedger} {same key : String} :
    key ∈ s.taken same ↔ ∃ e ∈ s.held, (same = "" ∨ e.txid ≠ some same) ∧ e.key = key := by
  simp [taken, List.mem_filter, and_assoc]

/-- What a claim does: nothing, a purge, or a purge and a new claim over keys that are neither
taken nor queued. -/
theorem claim_cases (holdMs : ℤ) (s : OwnSpendLedger) (call : ClaimCall) :
    (s.claim holdMs call = (.nothing, s) ∧ call.keys = []) ∨
      ((s.claim holdMs call).2 = s.purge ∧ ∀ id, (s.claim holdMs call).1 ≠ .claimed id) ∨
      (s.claim holdMs call = (.claimed ⟨s.now, s.nextClaim + 1⟩,
          s.purge.add holdMs call.keys none (txidKey call.txid)) ∧
        (∀ key ∈ call.keys, key ∉ s.purge.taken (txidKey call.txid)) ∧
        ∀ o ∈ call.outpoints, o ∉ call.queued) := by
  rw [claim]
  split
  · next hnone =>
    refine .inl ⟨rfl, ?_⟩
    rw [ClaimCall.keys, hnone.1, hnone.2]
    rfl
  · dsimp only
    split
    · exact .inr (.inl ⟨rfl, nofun⟩)
    · next hnames =>
      split
      · exact .inr (.inl ⟨rfl, nofun⟩)
      · next hspent =>
        have hfree := List.filter_eq_nil_iff.mp (not_not.mp hspent)
        refine .inr (.inr ⟨rfl, fun key hkey => ?_, fun o ho hqueued => ?_⟩)
        · rcases List.mem_append.mp hkey with hkey | hkey
          · obtain ⟨o, ho, rfl⟩ := List.mem_map.mp hkey
            exact fun htaken => hfree o ho (decide_eq_true (List.mem_append_left _ htaken))
          · obtain ⟨n, hn, rfl⟩ := List.mem_map.mp hkey
            exact fun htaken => List.find?_eq_none.mp hnames n hn (decide_eq_true htaken)
        · exact hfree o ho
            (decide_eq_true (List.mem_append_right _ (List.mem_map_of_mem hqueued)))

end OwnSpendLedger

end XchainWallet
