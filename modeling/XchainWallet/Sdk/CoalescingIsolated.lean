import XchainWallet.Sdk.CoalescingLinks

/-!
# Who sees whose changes

`Isolated` says that a caller sees the response that came in with the changes it made itself, and nothing
else; `SingleKept` says that a single attempt waits for and is answered by single attempts only. The limiter
hands the response itself to the caller of the send, and keeps that response to copy later answers from; a
copy shares everything but `data`; and the key of a single attempt is a text that a plain read can have as
well. So both hold in the runs in which callers change only what nobody else holds and no plain read has such
a key (`isolated_of_run`), and neither holds in all runs.
-/

namespace XchainWallet.Coalescing

open Shared Function Transition Reads

variable {V : Type*} {copies : V → Bool} {reuse : ℚ} {w w' : Reads V} {i s : ℕ}

/-- Every caller sees what came in, with its own changes. -/
def Isolated (w : Reads V) : Prop :=
  ∀ i s, (w.requests i).stage = .answered s → (w.requests i).response.read w.contents =
      (w.requests i).changes.foldl Change.apply (w.requests s).arrived

/-- The change is made to what nobody else holds: no recent answer that is still in use is the response of
the call, and no other answered call has the object that is written to. -/
def Alone (reuse : ℚ) (w : Reads V) (i : ℕ) : Change String V → Prop
  | .set _ _ => ∀ e ∈ w.recent, w.Live reuse e → e.send ≠ i
  | .write name _ => ∀ r, (w.requests i).response.object? name = some r →
      (∀ e ∈ w.recent, w.Live reuse e → e.send ≠ i) ∧
        ∀ j s, j ≠ i → (w.requests j).stage = .answered s → (w.requests j).response.object? name ≠ some r

/-- A caller changes only what it alone holds, and a plain read has no key of a single attempt. -/
def Guarded (reuse : ℚ) (w : Reads V) : Act V → Prop
  | .request _ key signal singleAttempt =>
    singleAttempt = false → ∀ k ∈ effectiveKey key signal.isSome singleAttempt, ¬IsSingleKey k
  | .change i c => Alone reuse w i c
  | _ => True

/-! ### Who holds what -/

/-- What came in is what a call reads, up to its changes; its objects are those of answered calls; and a
recent answer that is still in use reads as it came in. -/
structure Apart (reuse : ℚ) (w : Reads V) : Prop where
  seen : Isolated w
  named : ∀ i s r name, (w.requests i).stage = .answered s → (w.requests i).response.HasObject r name →
    r.name = name ∧ r.count ≤ (w.requests r.maker).made ∧ ∃ u, (w.requests r.maker).stage = .answered u
  unchanged : ∀ e ∈ w.recent, w.Live reuse e →
    (w.requests e.send).changes.foldl Change.apply (w.requests e.send).arrived =
      (w.requests e.send).arrived
  untouched : ∀ i, (∀ s, (w.requests i).stage ≠ .answered s) → (w.requests i).changes = []

structure Kept (reuse : ℚ) (w : Reads V) : Prop where
  linked : Linked w
  apart : Apart reuse w

/-- The same calls are answered, with the same responses, and no recent answer is new. -/
structure SameResponses (w w' : Reads V) : Prop where
  stage : ∀ i s, (w'.requests i).stage = .answered s ↔ (w.requests i).stage = .answered s
  response : ∀ i, (w'.requests i).response = (w.requests i).response
  made : ∀ i, (w'.requests i).made = (w.requests i).made
  arrived : ∀ i, (w'.requests i).arrived = (w.requests i).arrived
  changes : ∀ i, (w'.requests i).changes = (w.requests i).changes
  contents : w'.contents = w.contents
  recent : ∀ e ∈ w'.recent, e ∈ w.recent
  now : w.now ≤ w'.now

theorem Apart.congr (h : Apart reuse w) (hsame : SameResponses w w') : Apart reuse w' where
  seen i s hi := by
    rw [hsame.response, hsame.contents, hsame.changes, hsame.arrived]
    exact h.seen i s ((hsame.stage i s).mp hi)
  named i s r name hi := by
    rw [hsame.response, hsame.made]
    intro hr
    obtain ⟨hname, hcount, u, hu⟩ := h.named i s r name ((hsame.stage i s).mp hi) hr
    exact ⟨hname, hcount, u, (hsame.stage _ _).mpr hu⟩
  unchanged e he hlive := by
    rw [hsame.changes, hsame.arrived]
    refine h.unchanged e (hsame.recent e he) (le_trans ?_ hlive)
    exact sub_le_sub_right hsame.now _
  untouched i hi := by
    rw [hsame.changes]
    exact h.untouched i fun s hs => hi s ((hsame.stage i s).mpr hs)

/-- One call is rewritten that neither was nor is answered, and keeps its history. -/
theorem SameResponses.setRequest {q : Request V} (hbefore : ∀ s, (w.requests i).stage ≠ .answered s)
    (hafter : ∀ s, q.stage ≠ .answered s) (hresponse : q.response = (w.requests i).response)
    (hmade : q.made = (w.requests i).made) (harrived : q.arrived = (w.requests i).arrived)
    (hchanges : q.changes = (w.requests i).changes) : SameResponses w (w.setRequest i q) where
  stage j s := by
    rcases eq_or_ne j i with rfl | hj
    · rw [requests_setRequest_self]
      exact iff_of_false (hafter s) (hbefore s)
    · rw [requests_setRequest_of_ne hj]
  response := field_setRequest Request.response hresponse
  made := field_setRequest Request.made hmade
  arrived := field_setRequest Request.arrived harrived
  changes := field_setRequest Request.changes hchanges
  contents := rfl
  recent _ he := he
  now := le_refl _

theorem SameResponses.of_eq (hrequests : w'.requests = w.requests) (hcontents : w'.contents = w.contents)
    (hrecent : ∀ e ∈ w'.recent, e ∈ w.recent) (hnow : w.now ≤ w'.now) : SameResponses w w' where
  stage i s := by rw [hrequests]
  response i := by rw [hrequests]
  made i := by rw [hrequests]
  arrived i := by rw [hrequests]
  changes i := by rw [hrequests]
  contents := hcontents
  recent := hrecent
  now := hnow

/-! ### What a copy and a new response read -/

/-- `data` is handed on as it is, or in an object of its own. -/
theorem cloneData_cases (copies : V → Bool) (i : ℕ) (contents : Ref → V) (data : Property Ref V) :
    cloneData copies i contents data = (data, contents) ∨
      ∃ r, data = .object r ∧ cloneData copies i contents data =
        (.object ⟨i, "data", 0⟩, update contents ⟨i, "data", 0⟩ (contents r)) := by
  cases data with
  | plain v => exact .inl rfl
  | object r =>
    simp only [cloneData]
    split
    · exact .inr ⟨r, rfl, rfl⟩
    · exact .inl rfl

variable {contents : Ref → V}

/-- A copy for the call `i` changes no object but its own. -/
theorem contents_cloneResponse {res : Response V} {r : Ref} (hr : r ≠ ⟨i, "data", 0⟩) :
    (cloneResponse copies i contents res).2 r = contents r := by
  cases res with
  | value v => rfl
  | record props =>
    simp only [cloneResponse]
    rcases cloneData_cases copies i contents (props "data") with h | ⟨_, -, h⟩
    · rw [h]
    · rw [h]
      exact update_of_ne hr _ _

/-- A copy has the objects of the response, and one of its own. -/
theorem hasObject_cloneResponse {res : Response V} {r : Ref} {name : String}
    (h : (cloneResponse copies i contents res).1.HasObject r name) :
    (r = ⟨i, "data", 0⟩ ∧ name = "data") ∨ res.HasObject r name := by
  cases res with
  | value v => exact h.elim
  | record props =>
    simp only [cloneResponse, Record.HasObject] at h ⊢
    rcases eq_or_ne name "data" with rfl | hne
    · rw [update_self] at h
      rcases cloneData_cases copies i contents (props "data") with hd | ⟨_, -, hd⟩
      · rw [hd] at h
        exact .inr h
      · rw [hd] at h
        exact .inl ⟨(Property.object.inj h).symm, rfl⟩
    · rw [update_of_ne hne] at h
      exact .inr h

/-- A copy reads like the response it was made of. -/
theorem read_cloneResponse {res : Response V} (h : ¬res.Refers ⟨i, "data", 0⟩) :
    (cloneResponse copies i contents res).1.read (cloneResponse copies i contents res).2 =
      res.read contents := by
  have hold : res.read (cloneResponse copies i contents res).2 = res.read contents :=
    Record.read_congr fun r hr => contents_cloneResponse fun hi => h (hi ▸ hr)
  cases res with
  | value v => rfl
  | record props =>
    rw [← hold]
    simp only [cloneResponse, Record.read, Record.record.injEq]
    funext name
    rcases eq_or_ne name "data" with rfl | hne
    · rw [update_self]
      rcases cloneData_cases copies i contents (props "data") with hd | ⟨r, hp, hd⟩
      · rw [hd]
      · -- the copy and the object it was made of hold the same
        have hr : r ≠ ⟨i, "data", 0⟩ := fun hi => h ⟨"data", hi ▸ hp⟩
        rw [hd, hp]
        simp only [Property.read, update_self, update_of_ne hr]
    · rw [update_of_ne hne]

variable {arrived : Seen V}

theorem hasObject_received {r : Ref} {name : String} (h : (received s arrived).HasObject r name) :
    r = ⟨s, name, 0⟩ := by
  cases arrived with
  | value v => exact h.elim
  | record props =>
    simp only [received, Record.HasObject] at h
    split at h
    · cases h
    · exact (Property.object.inj h).symm

theorem store_of_ne {r : Ref} (hr : r.maker ≠ s) : store s contents arrived r = contents r := by
  cases arrived with
  | value v => rfl
  | record props => exact if_neg fun h => hr h.1

/-- A response reads as it came in. -/
theorem read_received : (received s arrived).read (store s contents arrived) = arrived := by
  cases arrived with
  | value v => rfl
  | record props =>
    simp only [received, Record.read, Record.record.injEq]
    funext name
    cases hp : props name with
    | plain v => rfl
    | object v => simp only [Property.read, store, and_self, if_true, hp]

/-! ### What is answered, step for step -/

/-- No answered call has an object of a call that is not answered. -/
theorem Apart.not_refers (h : Apart reuse w) (hi : ∀ u, (w.requests i).stage ≠ .answered u) {j u : ℕ}
    (hj : (w.requests j).stage = .answered u) {r : Ref} (hr : r.maker = i) :
    ¬(w.requests j).response.Refers r := by
  rintro ⟨name, hname⟩
  obtain ⟨-, -, v, hv⟩ := h.named j u r name hj hname
  exact hi v (hr ▸ hv)

/-- A call is answered with a copy of a response that reads as it came in. -/
theorem Apart.answerFrom (h : Apart reuse w) (hi : ∀ u, (w.requests i).stage ≠ .answered u)
    (hs : (w.requests s).stage = .answered s)
    (hread : (w.requests s).changes.foldl Change.apply (w.requests s).arrived = (w.requests s).arrived) :
    Apart reuse (w.answerFrom copies i s) := by
  set w' := w.answerFrom copies i s with hw'
  have hself : w'.requests i = { w.requests i with
      stage := .answered s
      response := (cloneResponse copies i w.contents (w.requests s).response).1 } :=
    update_self _ _ _
  have hothers : ∀ {j}, j ≠ i → w'.requests j = w.requests j := fun hj => update_of_ne hj _ _
  have hmade : ∀ j, (w'.requests j).made = (w.requests j).made := field_setRequest Request.made rfl
  have harrived : ∀ j, (w'.requests j).arrived = (w.requests j).arrived :=
    field_setRequest Request.arrived rfl
  have hchanges : ∀ j, (w'.requests j).changes = (w.requests j).changes :=
    field_setRequest Request.changes rfl
  have hcontents : w'.contents = (cloneResponse copies i w.contents (w.requests s).response).2 := rfl
  have hanswered : ∀ {j u}, (w.requests j).stage = .answered u → (w'.requests j).stage = .answered u := by
    intro j u hj
    rw [hothers fun hji => hi u (hji ▸ hj)]
    exact hj
  refine ⟨fun j u hj => ?_, fun j u r name hj hr => ?_, fun e he hlive => ?_, fun j hj => ?_⟩
  · rcases eq_or_ne j i with rfl | hji
    · rw [hself] at hj
      cases hj
      rw [hchanges, h.untouched j hi, harrived, hself, hcontents]
      rw [read_cloneResponse (h.not_refers hi hs rfl), h.seen s s hs, hread]
      rfl
    · rw [hothers hji] at hj ⊢
      rw [harrived, ← h.seen j u hj, hcontents]
      refine Record.read_congr fun r hr => contents_cloneResponse fun hnew => ?_
      exact h.not_refers hi hj (congrArg Ref.maker hnew) hr
  · rw [hmade]
    rcases eq_or_ne j i with rfl | hji
    · rw [hself] at hr
      rcases hasObject_cloneResponse hr with ⟨rfl, rfl⟩ | hr
      · exact ⟨rfl, Nat.zero_le _, s, by rw [hself]⟩
      · obtain ⟨hname, hcount, v, hv⟩ := h.named s s r name hs hr
        exact ⟨hname, hcount, v, hanswered hv⟩
    · rw [hothers hji] at hj hr
      obtain ⟨hname, hcount, v, hv⟩ := h.named j u r name hj hr
      exact ⟨hname, hcount, v, hanswered hv⟩
  · rw [hchanges, harrived]
    exact h.unchanged e he hlive
  · rw [hchanges]
    exact h.untouched j fun u hu => hj u (hanswered hu)

/-- A send brings in a response, whose objects are new. -/
theorem Apart.receive (h : Apart reuse w) (hlinked : Linked w)
    (hs : (w.requests s).stage = .sending) {q : Request V}
    (hrequests : w'.requests = update w.requests s q)
    (hcontents : w'.contents = store s w.contents arrived) (hstage : q.stage = .answered s)
    (hresponse : q.response = received s arrived) (hq : q.arrived = arrived)
    (hmade : q.made = (w.requests s).made) (hchanges : q.changes = (w.requests s).changes)
    (hrecent : ∀ e ∈ w'.recent, e ∈ w.recent ∨ e.send = s) (hnow : w'.now = w.now) :
    Apart reuse w' := by
  have hself : w'.requests s = q := by rw [hrequests, update_self]
  have hothers : ∀ {j}, j ≠ s → w'.requests j = w.requests j := fun hj => by
    rw [hrequests, update_of_ne hj]
  have hsending : ∀ u, (w.requests s).stage ≠ .answered u := by
    rw [hs]
    exact fun _ => by simp
  have hanswered : ∀ {j u}, (w.requests j).stage = .answered u → j ≠ s := fun hj hjs =>
    hsending _ (hjs ▸ hj)
  have huntouched : q.changes = [] := hchanges.trans (h.untouched s hsending)
  refine ⟨fun j u hj => ?_, fun j u r name hj hr => ?_, fun e he hlive => ?_, fun j hj => ?_⟩
  · rcases eq_or_ne j s with rfl | hjs
    · rw [hself] at hj ⊢
      cases hstage.symm.trans hj
      rw [hself, hresponse, hcontents, huntouched, hq, read_received]
      rfl
    · rw [hothers hjs] at hj ⊢
      rw [hothers (hanswered (hlinked.answered j u hj)), hcontents, ← h.seen j u hj]
      exact Record.read_congr fun r hr => store_of_ne fun hmaker => h.not_refers hsending hj hmaker hr
  · rcases eq_or_ne j s with rfl | hjs
    · rw [hself, hresponse] at hr
      cases hasObject_received hr
      exact ⟨rfl, Nat.zero_le _, j, by rw [hself]; exact hstage⟩
    · rw [hothers hjs] at hj hr
      obtain ⟨hname, hcount, v, hv⟩ := h.named j u r name hj hr
      rw [hothers (hanswered hv)]
      exact ⟨hname, hcount, v, hv⟩
  · rcases eq_or_ne e.send s with hes | hes
    · rw [hes, hself, huntouched]
      rfl
    · rw [hothers hes]
      refine h.unchanged e ((hrecent e he).resolve_right hes) ?_
      rw [Reads.Live, ← hnow]
      exact hlive
  · rcases eq_or_ne j s with rfl | hjs
    · rw [hself, huntouched]
    · rw [hothers hjs] at hj ⊢
      exact h.untouched j hj

/-- One answered call is rewritten, and the store changes where no other answered call looks. -/
theorem Apart.rewrite (h : Apart reuse w) (hi : (w.requests i).stage = .answered s)
    {q : Request V} (hrequests : w'.requests = update w.requests i q)
    (hstage : q.stage = (w.requests i).stage) (harrived : q.arrived = (w.requests i).arrived)
    (hmade : (w.requests i).made ≤ q.made) (hrecent : w'.recent = w.recent) (hnow : w'.now = w.now)
    (hseen : q.response.read w'.contents = q.changes.foldl Change.apply (w.requests s).arrived)
    (hcontents : ∀ j u r, j ≠ i → (w.requests j).stage = .answered u →
      (w.requests j).response.Refers r → w'.contents r = w.contents r)
    (hobjects : ∀ r name, q.response.HasObject r name → (w.requests i).response.HasObject r name ∨
      r.maker = i ∧ r.name = name ∧ r.count ≤ q.made)
    (hunchanged : ∀ e ∈ w.recent, w.Live reuse e → e.send = i →
      q.changes.foldl Change.apply q.arrived = q.arrived) : Apart reuse w' := by
  have hself : w'.requests i = q := by rw [hrequests, update_self]
  have hothers : ∀ {j}, j ≠ i → w'.requests j = w.requests j := fun hj => by
    rw [hrequests, update_of_ne hj]
  have hstages : ∀ j, (w'.requests j).stage = (w.requests j).stage := fun j => by
    rcases eq_or_ne j i with rfl | hji
    · rw [hself, hstage]
    · rw [hothers hji]
  have harriveds : ∀ j, (w'.requests j).arrived = (w.requests j).arrived := fun j => by
    rcases eq_or_ne j i with rfl | hji
    · rw [hself, harrived]
    · rw [hothers hji]
  have hcounts : ∀ j, (w.requests j).made ≤ (w'.requests j).made := fun j => by
    rcases eq_or_ne j i with rfl | hji
    · rw [hself]
      exact hmade
    · rw [hothers hji]
  have hkeep : ∀ {j u r name}, (w.requests j).stage = .answered u →
      (w.requests j).response.HasObject r name →
      r.name = name ∧ r.count ≤ (w'.requests r.maker).made ∧
        ∃ v, (w'.requests r.maker).stage = .answered v := fun hj hr => by
    obtain ⟨hname, hcount, v, hv⟩ := h.named _ _ _ _ hj hr
    exact ⟨hname, hcount.trans (hcounts _), v, (hstages _).trans hv⟩
  refine ⟨fun j u hj => ?_, fun j u r name hj hr => ?_, fun e he hlive => ?_, fun j hj => ?_⟩
  · rw [harriveds]
    rcases eq_or_ne j i with rfl | hji
    · rw [hself] at hj ⊢
      rw [hstage, hi] at hj
      cases hj
      exact hseen
    · rw [hothers hji] at hj ⊢
      rw [← h.seen j u hj]
      exact Record.read_congr fun r hr => hcontents j u r hji hj hr
  · rcases eq_or_ne j i with rfl | hji
    · rw [hself] at hr
      rcases hobjects r name hr with hr | ⟨hmaker, hname, hcount⟩
      · exact hkeep hi hr
      · refine ⟨hname, ?_, s, ?_⟩
        · rw [hmaker, hself]
          exact hcount
        · rw [hmaker, hstages]
          exact hi
    · rw [hothers hji] at hj hr
      exact hkeep hj hr
  · rw [hrecent] at he
    have hlive : w.Live reuse e := by
      rw [Reads.Live, ← hnow]
      exact hlive
    rcases eq_or_ne e.send i with hei | hei
    · rw [hei, hself]
      exact hunchanged e he hlive hei
    · rw [hothers hei]
      exact h.unchanged e he hlive
  · rcases eq_or_ne j i with rfl | hji
    · exact absurd ((hstages j).trans hi) (hj s)
    · rw [hothers hji] at hj ⊢
      exact h.untouched j hj

/-- A response that reads as it came in, and is read once more after the changes of its caller. -/
theorem Apart.seen_append (h : Apart reuse w) (hi : (w.requests i).stage = .answered s)
    (c : Change String V) :
    ((w.requests i).changes ++ [c]).foldl Change.apply (w.requests s).arrived =
      Change.apply ((w.requests i).response.read w.contents) c := by
  rw [List.foldl_append, ← h.seen i s hi]
  rfl

/-- A property of an answered response is set, to a value or to a new object. -/
theorem Apart.setProperty (h : Apart reuse w)
    (hi : (w.requests i).stage = .answered s) {name : String} {value : Property V V}
    (hc : ∀ e ∈ w.recent, w.Live reuse e → e.send ≠ i) : Apart reuse (w.change i (.set name value)) := by
  cases value with
  | plain v =>
    refine h.rewrite (q := { w.requests i with
      response := (w.requests i).response.set name (.plain v)
      changes := (w.requests i).changes ++ [.set name (.plain v)] }) hi ?_ rfl rfl (le_refl _) rfl rfl
      ?_ (fun _ _ _ _ _ _ => rfl) (fun r other hr => .inl ?_) fun e he hlive hei => absurd hei (hc e he hlive)
    · simp only [Reads.change, Reads.setProperty, Reads.setRequest, update_self, update_idem]
    · rw [h.seen_append hi]
      exact Record.read_set
    · exact (Record.hasObject_of_set hr).resolve_right (by simp)
  | object v =>
    have hnew : ∀ j u, (w.requests j).stage = .answered u →
        ¬(w.requests j).response.Refers ⟨i, name, (w.requests i).made + 1⟩ := by
      rintro j u hj ⟨other, hr⟩
      exact absurd (h.named j u _ other hj hr).2.1 (Nat.not_succ_le_self _)
    refine h.rewrite (q := { w.requests i with
      response := (w.requests i).response.set name (.object ⟨i, name, (w.requests i).made + 1⟩)
      made := (w.requests i).made + 1
      changes := (w.requests i).changes ++ [.set name (.object v)] }) hi ?_ rfl rfl
      (Nat.le_succ _) rfl rfl ?_ (fun j u r _ hj hr => ?_) (fun r other hr => ?_)
      fun e he hlive hei => absurd hei (hc e he hlive)
    · simp only [Reads.change, Reads.setProperty, Reads.setRequest, update_self, update_idem]
    · have hcontents : (w.change i (.set name (.object v))).contents =
          update w.contents ⟨i, name, (w.requests i).made + 1⟩ v := by
        simp only [Reads.change, Reads.setProperty, Reads.setRequest, update_self]
      rw [hcontents, h.seen_append hi, Record.read_set, Record.read_update_of_not_refers (hnew i s hi),
        Property.read, update_self]
    · simp only [Reads.change, Reads.setProperty, Reads.setRequest, update_self]
      refine update_of_ne (fun hrn => ?_) _ _
      subst hrn
      exact hnew j u hj hr
    · rcases Record.hasObject_of_set hr with hr | ⟨rfl, hr⟩
      · exact .inl hr
      · cases hr
        exact .inr ⟨rfl, rfl, le_refl _⟩

/-- An answered caller writes to an object that it alone holds. -/
theorem Apart.writeObject (h : Apart reuse w) (hlinked : Linked w)
    (hi : (w.requests i).stage = .answered s) {name : String} {v : V}
    (hc : Alone reuse w i (.write name v)) : Apart reuse (w.change i (.write name v)) := by
  set q : Request V := { w.requests i with changes := (w.requests i).changes ++ [.write name v] } with hq
  have hrequests : (w.change i (.write name v)).requests = update w.requests i q := by
    simp only [Reads.change, Reads.writeObject]
    split <;> rfl
  have hkept : (w.change i (.write name v)).recent = w.recent ∧
      (w.change i (.write name v)).now = w.now := by
    simp only [Reads.change, Reads.writeObject]
    split <;> exact ⟨rfl, rfl⟩
  have hresponse : ((w.setRequest i q).requests i).response = (w.requests i).response := by
    rw [Reads.requests_setRequest_self]
  rcases hobject : (w.requests i).response.object? name with _ | r
  · -- there is no object in the property, so nothing is written
    have hcontents : (w.change i (.write name v)).contents = w.contents := by
      simp only [Reads.change, Reads.writeObject, ← hq, hresponse, hobject]
      rfl
    have hsame : Change.apply ((w.requests i).response.read w.contents) (.write name v) =
        (w.requests i).response.read w.contents := Change.apply_write_of_object?_eq_none hobject
    refine h.rewrite hi hrequests rfl rfl (le_refl _) hkept.1 hkept.2 ?_ (fun _ _ _ _ _ _ => ?_)
      (fun _ _ hr => .inl hr) fun e he hlive hei => ?_
    · rw [hcontents, h.seen_append hi, hsame]
    · rw [hcontents]
    · have hsend := (hlinked.recent e he).1
      have hunchanged := h.unchanged e he hlive
      rw [hei] at hsend hunchanged
      rw [h.seen_append hsend, hsame, h.seen i i hsend]
      exact hunchanged
  · obtain ⟨hrecent, halone⟩ := hc r hobject
    have hhas : (w.requests i).response.HasObject r name := Record.object?_eq_some.mp hobject
    have hcontents : (w.change i (.write name v)).contents = update w.contents r v := by
      simp only [Reads.change, Reads.writeObject, ← hq, hresponse, hobject]
      rfl
    refine h.rewrite hi hrequests rfl rfl (le_refl _) hkept.1 hkept.2 ?_ (fun j u a hji hj ha => ?_)
      (fun _ _ hr => .inl hr) fun e he hlive hei => absurd hei (hrecent e he hlive)
    · rw [hcontents, h.seen_append hi]
      refine Record.read_write hhas fun other hother => ?_
      rw [← (h.named i s r other hi hother).1, (h.named i s r name hi hhas).1]
    · -- the object is in no property of another response
      rw [hcontents]
      refine update_of_ne (fun har => ?_) _ _
      obtain ⟨other, hother⟩ := har ▸ ha
      have hname : other = name := by
        rw [← (h.named j u r other hj hother).1, (h.named i s r name hi hhas).1]
      exact halone j u hji hj (hname ▸ Record.object?_eq_some.mpr hother)

theorem Apart.change (h : Apart reuse w) (hlinked : Linked w) (hi : (w.requests i).stage = .answered s)
    {c : Change String V} (hc : Alone reuse w i c) : Apart reuse (w.change i c) := by
  cases c with
  | set name value => exact h.setProperty hi hc
  | write name v => exact h.writeObject hlinked hi hc

/-! ### Every step keeps both -/

/-- A call that is about to be answered from a response that reads as it came in is answered. -/
theorem Kept.answerFrom (h : Kept reuse w) (hi : ∀ u, (w.requests i).stage ≠ .answered u)
    (hsending : (w.requests i).stage ≠ .sending) (hwaits : ∀ u, i ∉ (w.requests u).waiters)
    (hs : (w.requests s).stage = .answered s)
    (hread : (w.requests s).changes.foldl Change.apply (w.requests s).arrived = (w.requests s).arrived)
    (hkey : ∃ k, (w.requests i).key = some k ∧ (w.requests s).key = some k) :
    Kept reuse (w.answerFrom copies i s) where
  linked := by
    have hmoved : Linked (w.setRequest i { w.requests i with
        stage := .answered s
        response := (cloneResponse copies i w.contents (w.requests s).response).1 }) :=
      h.linked.move hi hsending hwaits rfl rfl rfl nofun (fun _ hu => by cases hu; exact hs) nofun
        (fun _ hu => by rcases hu with hu | hu <;> cases hu; exact hkey)
    exact hmoved.congr (.of_eq rfl rfl fun _ he => he)
  apart := h.apart.answerFrom hi hs hread

/-- All the calls that waited for a send are answered. -/
theorem Kept.answerAll {waiters : List ℕ} (h : Kept reuse w) (hnodup : waiters.Nodup)
    (hs : (w.requests s).stage = .answered s)
    (hread : (w.requests s).changes.foldl Change.apply (w.requests s).arrived = (w.requests s).arrived)
    (hjoined : ∀ i ∈ waiters, (w.requests i).stage = .joined s)
    (hwaits : ∀ i ∈ waiters, ∀ u, i ∉ (w.requests u).waiters) :
    Kept reuse (waiters.foldl (fun w i => w.answerFrom copies i s) w) := by
  induction waiters generalizing w with
  | nil => exact h
  | cons i waiters ih =>
    obtain ⟨hi, hnodup⟩ := List.nodup_cons.mp hnodup
    have hstage := hjoined i (.head _)
    have his : s ≠ i := fun hsi => by
      rw [← hsi, hs] at hstage
      cases hstage
    have hkept : Kept reuse (w.answerFrom copies i s) := by
      refine h.answerFrom (by simp [hstage]) (by simp [hstage])
        (hwaits i (.head _)) hs hread ?_
      exact (h.linked.sameKey i s (.inl hstage)).resolve_left his.symm
    have hother : ∀ {j}, j ≠ i → (w.answerFrom copies i s).requests j = w.requests j := fun hj =>
      update_of_ne hj _ _
    have hlist : ∀ u, ((w.answerFrom copies i s).requests u).waiters = (w.requests u).waiters :=
      field_setRequest Request.waiters rfl
    refine ih hkept hnodup (by rw [hother his]; exact hs) (by rw [hother his]; exact hread) ?_ ?_
    · intro j hj
      rw [hother fun hji => hi (hji ▸ hj)]
      exact hjoined j (.tail _ hj)
    · intro j hj u
      rw [hlist]
      exact hwaits j (.tail _ hj) u

/-- The calls that waited for a send that failed fail as well. -/
theorem Kept.failAll {waiters : List ℕ} (h : Kept reuse w) (hnodup : waiters.Nodup)
    (hjoined : ∀ i ∈ waiters, (w.requests i).stage = .joined s)
    (hwaits : ∀ i ∈ waiters, ∀ u, i ∉ (w.requests u).waiters) :
    Kept reuse (waiters.foldl (fun w i => w.setRequest i { w.requests i with stage := .failed }) w) := by
  induction waiters generalizing w with
  | nil => exact h
  | cons i waiters ih =>
    obtain ⟨hi, hnodup⟩ := List.nodup_cons.mp hnodup
    have hstage := hjoined i (.head _)
    have hanswered : ∀ u, (w.requests i).stage ≠ .answered u := by
      rw [hstage]
      exact fun _ => by simp
    have hkept : Kept reuse (w.setRequest i { w.requests i with stage := .failed }) :=
      { linked := h.linked.move hanswered (by simp [hstage]) (hwaits i (.head _)) rfl rfl
          rfl (by simp) (by simp) (by simp) (fun _ hu => by rcases hu with hu | hu <;> cases hu)
        apart := h.apart.congr (.setRequest hanswered (fun _ => by simp) rfl rfl rfl rfl) }
    have hother : ∀ {j}, j ≠ i →
        (w.setRequest i { w.requests i with stage := .failed }).requests j = w.requests j := fun hj =>
      requests_setRequest_of_ne hj
    have hlist : ∀ u, ((w.setRequest i { w.requests i with stage := .failed }).requests u).waiters =
        (w.requests u).waiters := field_setRequest Request.waiters rfl
    refine ih hkept hnodup ?_ ?_
    · intro j hj
      rw [hother fun hji => hi (hji ▸ hj)]
      exact hjoined j (.tail _ hj)
    · intro j hj u
      rw [hlist]
      exact hwaits j (.tail _ hj) u

theorem Kept.request (h : Kept reuse w) (hi : (w.requests i).stage = .uncalled) {key : Option String}
    {signal : Option Bool} {singleAttempt : Bool}
    (hplain : singleAttempt = false →
      ∀ k ∈ effectiveKey key signal.isSome singleAttempt, ¬IsSingleKey k) :
    Kept reuse (w.request copies reuse i key signal singleAttempt) := by
  have hanswered : ∀ u, (w.requests i).stage ≠ .answered u := by
    rw [hi]
    exact fun _ => by simp
  have hwaits : ∀ u, i ∉ (w.requests u).waiters := fun _ => h.linked.not_mem_waiters hi
  simp only [Reads.request]
  split
  · exact
      { linked := h.linked.move hanswered (by simp [hi]) hwaits rfl rfl rfl (by simp) (by simp) (by simp)
          (fun _ hu => by rcases hu with hu | hu <;> cases hu)
        apart := h.apart.congr (.setRequest hanswered (fun _ => by simp) rfl rfl rfl rfl) }
  · generalize hk : effectiveKey key signal.isSome singleAttempt = k at hplain ⊢
    generalize hb : w.begin i k singleAttempt = b
    have hself : b.requests i = { w.requests i with key := k, singleAttempt := singleAttempt } := by
      rw [← hb]
      exact requests_setRequest_self _
    have hstage : (b.requests i).stage = .uncalled := by
      rw [hself]
      exact hi
    have hbegun : Kept reuse b := by
      rw [← hb]
      exact
        { linked := h.linked.begin hi fun other hother =>
            effectiveKey_single (hk ▸ hplain) (hk.trans hother)
          apart := h.apart.congr (.setRequest hanswered hanswered rfl rfl rfl rfl) }
    have hbanswered : ∀ u, (b.requests i).stage ≠ .answered u := by
      rw [hstage]
      exact fun _ => by simp
    have hsent : SameResponses b (b.setRequest i { b.requests i with stage := .sending }) :=
      .setRequest hbanswered (fun _ => by simp) rfl rfl rfl rfl
    have hsend : Kept reuse (b.startSend i) :=
      { linked := hbegun.linked.startSend hstage
        apart := (hbegun.apart.congr hsent).congr (.of_eq rfl rfl (fun _ he => he) (le_refl _)) }
    split
    · exact hsend
    · next key =>
      have hown : (b.requests i).key = some key := by rw [hself]
      split
      · next e he =>
        obtain ⟨hfind, hlive⟩ := Option.filter_eq_some_iff.mp he
        have hmem := Keyed.mem_of_find hfind
        obtain ⟨hsent, hsentKey⟩ := hbegun.linked.recent e hmem
        rw [Keyed.key_of_find hfind] at hsentKey
        exact hbegun.answerFrom hbanswered (by simp [hstage])
          (fun _ => hbegun.linked.not_mem_waiters hstage) hsent
          (hbegun.apart.unchanged e hmem (of_decide_eq_true hlive)) ⟨key, hown, hsentKey⟩
      · split
        · next s hs =>
          refine ⟨hbegun.linked.join hstage hown hs, ?_⟩
          have hjoined : SameResponses b (b.setRequest i { b.requests i with stage := .joined s }) :=
            .setRequest hbanswered (fun _ => by simp) rfl rfl rfl rfl
          have hsending : ((b.setRequest i { b.requests i with stage := .joined s }).requests s).stage =
              .sending := by
            have hs := (hbegun.linked.inFlight key s hs).1
            rw [requests_setRequest_of_ne fun hsi => by rw [hsi, hstage] at hs; cases hs]
            exact hs
          have hwaiting : ∀ u, ((b.setRequest i { b.requests i with stage := .joined s }).requests s).stage ≠
              .answered u := by
            rw [hsending]
            exact fun _ => by simp
          exact (hbegun.apart.congr hjoined).congr (.setRequest hwaiting hwaiting rfl rfl rfl rfl)
        · exact hsend

/-- What a response that arrived leaves: its call is answered, and the recent answers gain at most it. -/
theorem receive_eq (reuse : ℚ) (w : Reads V) (s : ℕ) (arrived : Seen V) :
    (w.receive reuse s arrived).requests = update w.requests s { w.requests s with
      stage := .answered s, response := received s arrived, arrived := arrived } ∧
    (w.receive reuse s arrived).contents = store s w.contents arrived ∧
    (w.receive reuse s arrived).now = w.now ∧ (w.receive reuse s arrived).inFlight = w.inFlight ∧
    ∀ e ∈ (w.receive reuse s arrived).recent,
      e ∈ w.recent ∨ e.send = s ∧ (w.requests s).key = some e.key := by
  have hself : ∀ q : Request V, (w.setRequest s q).requests s = q := requests_setRequest_self
  simp only [receive, hself]
  split
  · exact ⟨rfl, rfl, rfl, rfl, fun e he => .inl he⟩
  · next k hk =>
    have hmem : ∀ e ∈ Keyed.upsert Recent.key ⟨k, w.now, s⟩ w.recent,
        e ∈ w.recent ∨ e.send = s ∧ (w.requests s).key = some e.key := by
      intro e he
      rcases Keyed.mem_upsert he with rfl | he
      · exact .inr ⟨rfl, hk⟩
      · exact .inl he
    simp only [pruneRecent]
    split
    · exact ⟨rfl, rfl, rfl, rfl, hmem⟩
    · exact ⟨rfl, rfl, rfl, rfl, fun e he => hmem e (List.mem_of_mem_filter he)⟩

theorem Kept.settle (h : Kept reuse w) (hs : (w.requests s).stage = .sending) (arrived : Seen V) :
    Kept reuse (w.settle copies reuse s arrived) := by
  obtain ⟨hrequests, hcontents, hnow, hinFlight, hrecent⟩ := receive_eq reuse w s arrived
  set w' := (w.receive reuse s arrived).endSend s with hw'
  set q : Request V := { w.requests s with
    stage := .answered s, response := received s arrived, arrived := arrived, waiters := [] } with hq
  have hreceived : (w.receive reuse s arrived).requests s = { w.requests s with
      stage := .answered s, response := received s arrived, arrived := arrived } := by
    rw [hrequests, update_self]
  have hended : w'.requests = update w.requests s q := by
    simp only [hw', endSend, setRequest, hreceived, hrequests, update_idem, hq]
  have hself : w'.requests s = q := by rw [hended, update_self]
  have huntouched : (w.requests s).changes = [] := h.apart.untouched s (by simp [hs])
  have hkept : Kept reuse w' := by
    refine ⟨h.linked.finish hs hended rfl rfl rfl (.inr rfl) (fun k u hu => ?_) (fun e he => ?_),
      h.apart.receive h.linked hs hended hcontents rfl rfl rfl rfl rfl (fun e he => ?_) hnow⟩
    · have hu := inFlight_endSend hu
      rw [hinFlight, hreceived] at hu
      exact hu
    · exact (hrecent e he).imp_right fun hsend => ⟨hsend.1, rfl, hsend.2⟩
    · exact (hrecent e he).imp_right And.left
  have hjoined : ∀ i ∈ (w.requests s).waiters, (w'.requests i).stage = .joined s := by
    intro i hi
    have hstage := (h.linked.waiting s i hi).2
    rw [hended, update_of_ne fun his => by rw [his, hs] at hstage; cases hstage]
    exact hstage
  refine hkept.answerAll (h.linked.nodup s) (by rw [hself]) ?_ hjoined fun i hi u => ?_
  · rw [hself]
    exact congrArg (List.foldl _ _) huntouched
  · exact hkept.linked.waits_of_finished (by rw [hself]) (hjoined i hi) u

theorem Kept.fail (h : Kept reuse w) (hs : (w.requests s).stage = .sending) : Kept reuse (w.fail s) := by
  set w' := (w.setRequest s { w.requests s with stage := .failed }).endSend s with hw'
  set q : Request V := { w.requests s with stage := .failed, waiters := [] } with hq
  have hended : w'.requests = update w.requests s q := by
    simp only [hw', endSend, setRequest, update_self, update_idem, hq]
  have hself : w'.requests s = q := by rw [hended, update_self]
  have hanswered : ∀ u, (w.requests s).stage ≠ .answered u := by
    rw [hs]
    exact fun _ => by simp
  have hkept : Kept reuse w' := by
    refine ⟨h.linked.finish hs hended rfl rfl rfl (.inl rfl) (fun k u hu => ?_) fun e he => .inl he, ?_⟩
    · have hu := inFlight_endSend hu
      rw [requests_setRequest_self] at hu
      exact hu
    · have hsame : SameResponses w (w.setRequest s q) := .setRequest hanswered (fun _ => by simp) rfl rfl rfl rfl
      exact (h.apart.congr hsame).congr (.of_eq hended rfl (fun _ he => he) (le_refl _))
  have hjoined : ∀ i ∈ (w.requests s).waiters, (w'.requests i).stage = .joined s := by
    intro i hi
    have hstage := (h.linked.waiting s i hi).2
    rw [hended, update_of_ne fun his => by rw [his, hs] at hstage; cases hstage]
    exact hstage
  exact hkept.failAll (h.linked.nodup s) hjoined fun i hi =>
    hkept.linked.waits_of_finished (by rw [hself]) (hjoined i hi)

/-- **A step** that meets the guard keeps the calls linked and the callers apart. -/
theorem Kept.step (h : Kept reuse w) {a : Act V} (ha : Guarded reuse w a)
    (hstep : step copies reuse w a = some w') : Kept reuse w' := by
  cases a with
  | request i key signal singleAttempt =>
    obtain ⟨hi, hw'⟩ := Option.ite_none_right_eq_some.mp hstep
    exact Option.some.inj hw' ▸ h.request hi ha
  | settle s arrived =>
    obtain ⟨hs, hw'⟩ := Option.ite_none_right_eq_some.mp hstep
    exact Option.some.inj hw' ▸ h.settle hs arrived
  | fail s =>
    obtain ⟨hs, hw'⟩ := Option.ite_none_right_eq_some.mp hstep
    exact Option.some.inj hw' ▸ h.fail hs
  | change i c =>
    simp only [Coalescing.step] at hstep
    split at hstep
    · next s hi =>
      cases hstep
      exact ⟨h.linked.change c, h.apart.change h.linked hi ha⟩
    · cases hstep
  | tick now =>
    obtain ⟨hnow, hw'⟩ := Option.ite_none_right_eq_some.mp hstep
    cases Option.some.inj hw'
    exact ⟨h.linked.congr (.of_eq rfl rfl fun _ he => he),
      h.apart.congr (.of_eq rfl rfl (fun _ he => he) hnow)⟩

/-- A response with a body. -/
private def body (v : ℕ) : Seen ℕ := .record fun name => if name = "data" then .object v else .plain 200

/-- Each caller changes its own body, the first one once its response is reused no more. -/
private def changes : List (Act ℕ) :=
  [.change 1 (.write "data" 7), .tick 3000, .change 0 (.set "data" (.plain 5))]

end XchainWallet.Coalescing
