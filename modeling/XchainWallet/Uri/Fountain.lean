import XchainWallet.Uri.XcwQr
import XchainWallet.Wire.Xor

/-!
# The fountain assembler

A long UR message is cut in fragments, and each part that is scanned carries the exclusive or of the
fragments at the indexes that its number chooses: one of them where the number is at most the number
of fragments, else some that a seeded generator draws. `FountainAssembler.receive` queues a part and
works the queue off. A part of one index is a fragment; it is taken out of the parts that mix it with
others, and those that come down to one index are queued in turn. The message is whole when all
indexes are received. The draws of the generator are a parameter.
-/

namespace XchainWallet

open Wire Checks

/-- `UrError`. -/
structure UrError where
  msg : String
deriving DecidableEq

def UrError.message (e : UrError) : String := "ur: " ++ e.msg

/-- `UR_MAX_SEQ_LEN`. -/
def urMaxSeqLen : ℕ := 4096

/-- `UR_MAX_MESSAGE_BYTES`. -/
def urMaxMessageBytes : ℕ := 2 * 1024 * 1024

/-- `UR_MAX_FRAGMENT_BYTES`. -/
def urMaxFragmentBytes : ℕ := 64 * 1024

/-- The indexes that the seeded generator draws for a mixed part, of its number, the number of
fragments and the checksum: `shuffle(indexes, rng).slice(0, degree)`. -/
structure PartChooser where
  drawn : ℕ → ℕ → ℕ → List ℕ
  nodup : ∀ seqNum seqLen checksum, (drawn seqNum seqLen checksum).Nodup
  lt : ∀ seqNum seqLen checksum, ∀ i ∈ drawn seqNum seqLen checksum, i < seqLen

/-- `chooseFragments(seqNum, seqLen, checksum)`. -/
def PartChooser.chooseFragments (chooser : PartChooser) (seqNum seqLen checksum : ℕ) : List ℤ :=
  if seqNum ≤ seqLen then [(seqNum : ℤ) - 1]
  else (chooser.drawn seqNum seqLen checksum).map fun i : ℕ => (i : ℤ)

/-- The indexes of a number of fragments. -/
def indexesBelow (n : ℕ) : List ℤ := (List.range n).map fun i : ℕ => (i : ℤ)

/-- `arraysEqualSet(a, b)`. -/
def arraysEqualSet (a b : List ℤ) : Bool := a.length = b.length ∧ a.all (· ∈ b)

/-- `contains(outer, inner)`. -/
def contains (outer inner : List ℤ) : Bool := inner.all (· ∈ outer)

/-- `setDifference(a, b)`. -/
def setDifference (a b : List ℤ) : List ℤ := a.filter (· ∉ b)

/-- `xorInto(a, b)`. -/
abbrev xorInto (a b : List UInt8) : List UInt8 := xorBytes a b

/-- An entry of the assembler's lists. -/
structure FountainItem where
  indexes : List ℤ
  fragment : List UInt8
deriving DecidableEq

/-- A part as it is read from a frame. -/
structure FountainPart where
  seqNum : ℕ
  seqLen : ℕ
  messageLength : ℕ
  checksum : ℕ
  fragment : List UInt8
deriving DecidableEq

/-- `FountainAssembler`. -/
structure FountainAssembler where
  expectedIndexes : Option (List ℤ)
  messageLength : ℕ
  checksum : ℕ
  fragmentLength : ℕ
  received : List ℤ
  simple : List FountainItem
  mixed : List FountainItem
  queue : List FountainItem
  result : Option (List UInt8)
deriving DecidableEq

namespace FountainAssembler

/-- The constructor. -/
def create : FountainAssembler := ⟨none, 0, 0, 0, [], [], [], [], none⟩

/-- `complete`. -/
def complete (a : FountainAssembler) : Bool := a.result.isSome

/-- `_validate(part)`: the first part gives the header, within bounds, and the others must share
it. -/
def validate (a : FountainAssembler) (part : FountainPart) :
    Except UrError (FountainAssembler × Bool) :=
  match a.expectedIndexes with
  | none => do
    refuseIf (urMaxSeqLen < part.seqLen)
      ⟨"fountain part declares " ++ toString part.seqLen ++ " parts, over the " ++
        toString urMaxSeqLen ++ " cap"⟩
    refuseIf (urMaxMessageBytes < part.messageLength)
      ⟨"fountain message declares " ++ toString part.messageLength ++ " bytes, over the cap"⟩
    refuseIf (urMaxFragmentBytes < part.fragment.length)
      ⟨"fountain fragment is larger than the cap"⟩
    refuseIf (part.messageLength < 1 ∨ part.seqLen * part.fragment.length < part.messageLength)
      ⟨"fountain message length is inconsistent with its parts"⟩
    pure ({ a with
      expectedIndexes := some (indexesBelow part.seqLen)
      messageLength := part.messageLength
      checksum := part.checksum
      fragmentLength := part.fragment.length }, true)
  | some expected =>
    .ok (a, expected.length = part.seqLen ∧ a.messageLength = part.messageLength ∧
      a.checksum = part.checksum ∧ a.fragmentLength = part.fragment.length)

/-- `_reduce(a, b)`. -/
def reduce (a b : FountainItem) : FountainItem :=
  if contains a.indexes b.indexes ∧ ¬arraysEqualSet a.indexes b.indexes then
    ⟨setDifference a.indexes b.indexes, xorInto a.fragment b.fragment⟩
  else a

/-- `_reduceMixedBy(part)`. -/
def reduceMixedBy (a : FountainAssembler) (item : FountainItem) : FountainAssembler :=
  let reduced := a.mixed.map (reduce · item)
  { a with
    queue := a.queue ++ reduced.filter (·.indexes.length = 1)
    mixed := reduced.filter (·.indexes.length ≠ 1) }

/-- The fragments in the order of their indexes. All have `fragmentLength` bytes, so each fills its
place in the buffer. -/
def joined (simple : List FountainItem) : List UInt8 :=
  (simple.mergeSort fun p q => p.indexes.headD 0 ≤ q.indexes.headD 0).flatMap (·.fragment)

/-- `_processSimple(part)`, with what it throws. -/
def processSimple (a : FountainAssembler) (idx : ℤ) (item : FountainItem) :
    FountainAssembler × Option UrError :=
  if idx ∈ a.received then (a, none)
  else
    let a : FountainAssembler :=
      { a with simple := a.simple ++ [item], received := a.received ++ [idx] }
    if arraysEqualSet a.received (a.expectedIndexes.getD []) then
      let message := (joined a.simple).take a.messageLength
      if (crc32 message).toNat = a.checksum % 2 ^ 32 then ({ a with result := some message }, none)
      else (a, some ⟨"fountain message checksum mismatch"⟩)
    else (a.reduceMixedBy item, none)

/-- `_processMixed(part)`. -/
def processMixed (a : FountainAssembler) (item : FountainItem) : FountainAssembler :=
  if a.mixed.any (arraysEqualSet ·.indexes item.indexes) then a
  else
    let p := a.mixed.foldl reduce (a.simple.foldl reduce item)
    if p.indexes.length = 1 then { a with queue := a.queue ++ [p] }
    else
      let a := a.reduceMixedBy p
      { a with mixed := a.mixed ++ [p] }

/-- One turn of the loop over the queue, with the item that is taken from it. -/
def turn (a : FountainAssembler) (item : FountainItem) : FountainAssembler × Option UrError :=
  match item.indexes with
  | [idx] => a.processSimple idx item
  | _ => (a.processMixed item, none)

/-- What is left to do: an item of one index is processed once, another goes to the mixed parts and
may come back with one index. -/
def work (a : FountainAssembler) : ℕ :=
  (a.queue.map fun item => if item.indexes.length = 1 then 1 else 3).sum + 2 * a.mixed.length

/-- Reducing the mixed parts moves some of them to the queue, and each is less work there. -/
theorem work_reduceMixedBy (a : FountainAssembler) (item : FountainItem) :
    (a.reduceMixedBy item).work ≤ a.work := by
  have hmoved : ∀ items : List FountainItem,
      ((items.filter (·.indexes.length = 1)).map fun item =>
        if item.indexes.length = 1 then 1 else 3).sum +
        2 * (items.filter (·.indexes.length ≠ 1)).length ≤ 2 * items.length := by
    intro items
    induction items with
    | nil => simp
    | cons item items ih =>
      by_cases hone : item.indexes.length = 1
      · simp [hone] at ih ⊢
        omega
      · simp [hone] at ih ⊢
        omega
  have hmoved' := hmoved (a.mixed.map (reduce · item))
  rw [List.length_map] at hmoved'
  simp only [work, reduceMixedBy, List.map_append, List.sum_append]
  omega

theorem work_processSimple (a : FountainAssembler) (idx : ℤ) (item : FountainItem) :
    (a.processSimple idx item).1.work ≤ a.work := by
  rw [processSimple]
  split_ifs
  · exact le_rfl
  · dsimp only
    split_ifs
    · exact le_rfl
    · exact le_rfl
    · exact work_reduceMixedBy _ item

theorem work_processMixed (a : FountainAssembler) (item : FountainItem) :
    (a.processMixed item).work ≤ a.work + 2 := by
  rw [processMixed]
  split_ifs
  · omega
  · dsimp only
    split_ifs with hone
    · simp only [work, List.map_append, List.sum_append, List.map_singleton, List.sum_singleton, hone,
        if_true]
      omega
    · have hreduced := work_reduceMixedBy a (a.mixed.foldl reduce (a.simple.foldl reduce item))
      simp only [work, List.length_append, List.length_singleton] at hreduced ⊢
      omega

variable {a : FountainAssembler}

/-- A turn leaves less to do. -/
theorem work_turn_lt {item : FountainItem} {rest : List FountainItem}
    (hqueue : a.queue = item :: rest) :
    (turn { a with queue := rest } item).1.work < a.work := by
  have hwork : a.work = (if item.indexes.length = 1 then 1 else 3) +
      work { a with queue := rest } := by
    simp only [work, hqueue, List.map_cons, List.sum_cons]
    omega
  rw [turn]
  split
  · rename_i idx hindexes
    have hsimple := work_processSimple { a with queue := rest } idx item
    rw [hindexes] at hwork
    simp only [List.length_singleton, if_true] at hwork
    omega
  · rename_i hindexes
    have hlength : item.indexes.length ≠ 1 := by
      intro hone
      obtain ⟨idx, heq⟩ := List.length_eq_one_iff.mp hone
      exact hindexes idx heq
    have hmixed := work_processMixed { a with queue := rest } item
    rw [if_neg hlength] at hwork
    dsimp only
    omega

/-- The loop over the queue, with what it throws. -/
def drain (a : FountainAssembler) : FountainAssembler × Option UrError :=
  if a.complete then (a, none)
  else
    match _hqueue : a.queue with
    | [] => (a, none)
    | item :: rest =>
      match _hturn : turn { a with queue := rest } item with
      | (next, some e) => (next, some e)
      | (next, none) => drain next
termination_by a.work
decreasing_by
  have hless := work_turn_lt _hqueue
  rwa [_hturn] at hless

/-- The assembler with a part at the end of its queue. -/
def queued (chooser : PartChooser) (a : FountainAssembler) (part : FountainPart) :
    FountainAssembler :=
  { a with
    queue := a.queue ++
      [⟨chooser.chooseFragments part.seqNum part.seqLen part.checksum, part.fragment⟩] }

/-- `receive(part)`, with what it throws. -/
def receive (chooser : PartChooser) (a : FountainAssembler) (part : FountainPart) :
    FountainAssembler × Except UrError Bool :=
  if a.complete then (a, .ok false)
  else
    match a.validate part with
    | .error e => (a, .error e)
    | .ok (a, false) => (a, .ok false)
    | .ok (a, true) =>
      match drain (a.queued chooser part) with
      | (a, some e) => (a, .error e)
      | (a, none) => (a, .ok true)

/-- The assembler after some parts. What a part throws is caught where it was scanned. -/
def assemble (chooser : PartChooser) (parts : List FountainPart) : FountainAssembler :=
  parts.foldl (fun a part => (a.receive chooser part).1) create

/-! ### The loop -/

theorem drain_of_complete (h : a.complete = true) : drain a = (a, none) := by
  rw [drain, if_pos h]

theorem drain_of_nil (h : a.queue = []) : drain a = (a, none) := by
  rw [drain]
  split_ifs
  · rfl
  · split
    · rfl
    · rename_i heq
      rw [h] at heq
      cases heq

theorem drain_of_cons {item : FountainItem} {rest : List FountainItem}
    (hrunning : a.complete = false) (h : a.queue = item :: rest) :
    drain a = match turn { a with queue := rest } item with
      | (next, some e) => (next, some e)
      | (next, none) => drain next := by
  rw [drain, if_neg (by simp [hrunning])]
  split
  · rename_i heq
    rw [h] at heq
    cases heq
  · rename_i heq
    rw [h] at heq
    obtain ⟨rfl, rfl⟩ := List.cons.inj heq
    split <;> rename_i hturn <;> rw [hturn]

/-- **The loop keeps what each of its turns keeps**, and it ends without a throw only when the
message is whole or the queue is empty. -/
theorem drain_keeps {P : FountainAssembler → Prop}
    (hturn : ∀ a item rest, P a → a.complete = false → a.queue = item :: rest →
      P (turn { a with queue := rest } item).1) {a : FountainAssembler} (h : P a) :
    P (drain a).1 ∧
      ((drain a).2 = none → (drain a).1.complete = true ∨ (drain a).1.queue = []) := by
  induction hwork : a.work using Nat.strong_induction_on generalizing a with
  | _ n ih =>
    cases hcomplete : a.complete with
    | true =>
      rw [drain_of_complete hcomplete]
      exact ⟨h, fun _ => .inl hcomplete⟩
    | false =>
      cases hqueue : a.queue with
      | nil =>
        rw [drain_of_nil hqueue]
        exact ⟨h, fun _ => .inr hqueue⟩
      | cons item rest =>
        have hnext := hturn a item rest h hcomplete hqueue
        have hless := work_turn_lt hqueue
        rw [drain_of_cons hcomplete hqueue]
        rcases hstep : turn { a with queue := rest } item with ⟨next, e⟩
        rw [hstep] at hnext hless
        cases e with
        | some e => exact ⟨hnext, fun hnone => by cases hnone⟩
        | none => exact ih next.work (by rw [← hwork]; exact hless) hnext rfl

/-- The loop throws nothing where no turn does. -/
theorem drain_no_throw {P : FountainAssembler → Prop}
    (hturn : ∀ a item rest, P a → a.complete = false → a.queue = item :: rest →
      P (turn { a with queue := rest } item).1 ∧ (turn { a with queue := rest } item).2 = none)
    {a : FountainAssembler} (h : P a) : (drain a).2 = none := by
  induction hwork : a.work using Nat.strong_induction_on generalizing a with
  | _ n ih =>
    cases hcomplete : a.complete with
    | true => rw [drain_of_complete hcomplete]
    | false =>
      cases hqueue : a.queue with
      | nil => rw [drain_of_nil hqueue]
      | cons item rest =>
        obtain ⟨hnext, hnone⟩ := hturn a item rest h hcomplete hqueue
        have hless := work_turn_lt hqueue
        rw [drain_of_cons hcomplete hqueue]
        rcases hstep : turn { a with queue := rest } item with ⟨next, e⟩
        rw [hstep] at hnext hless hnone
        obtain rfl : e = none := hnone
        exact ih next.work (by rw [← hwork]; exact hless) hnext rfl

/-! ### One part -/

theorem receive_of_complete {chooser : PartChooser} (part : FountainPart) (h : a.complete = true) :
    a.receive chooser part = (a, .ok false) := by
  rw [receive, if_pos h]

/-- A part that is not taken leaves the assembler as it is. -/
theorem receive_of_not_taken {chooser : PartChooser} {part : FountainPart}
    (h : ∀ started, a.validate part ≠ .ok (started, true)) : (a.receive chooser part).1 = a := by
  rw [receive]
  split_ifs
  · rfl
  cases hvalidate : a.validate part with
  | error e => rfl
  | ok started =>
    obtain ⟨started, taken⟩ := started
    cases taken with
    | true => exact absurd hvalidate (h started)
    | false =>
      rw [validate] at hvalidate
      cases hexpected : a.expectedIndexes with
      | none =>
        simp only [hexpected, bind_eq_ok, refuseIf_eq_ok, pure_eq_ok, Prod.mk.injEq,
          Bool.true_eq_false, and_false, exists_false] at hvalidate
      | some expected =>
        simp only [hexpected, Except.ok.injEq, Prod.mk.injEq] at hvalidate
        exact hvalidate.1.symm

/-- A part that is taken is queued, and the queue is worked off. -/
theorem receive_of_taken {chooser : PartChooser} {a started : FountainAssembler}
    {part : FountainPart} (hrunning : a.complete = false)
    (h : a.validate part = .ok (started, true)) :
    (a.receive chooser part).1 = (drain (started.queued chooser part)).1 ∧
      ((drain (started.queued chooser part)).2 = none → (a.receive chooser part).2 = .ok true) := by
  have hreceive : a.receive chooser part = match drain (started.queued chooser part) with
      | (a, some e) => (a, .error e)
      | (a, none) => (a, .ok true) := by
    rw [receive, if_neg (by simp [hrunning]), h]
  rw [hreceive]
  rcases drain (started.queued chooser part) with ⟨after, e⟩
  cases e with
  | some e => exact ⟨rfl, fun hnone => by cases hnone⟩
  | none => exact ⟨rfl, fun _ => rfl⟩

end FountainAssembler

end XchainWallet
