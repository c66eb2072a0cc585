import XchainWallet.Sdk.Coalescing

/-!
# How coalesced reads hang together

`Linked` ties the waiting calls, the sends in flight and the recent answers to sends of the same key.
Where a plain read never has a key of the form that marks single attempts, a key tells the two kinds apart,
so that single attempts meet only each other (`Linked.singleKept`). Each move of a call has one lemma.
-/

namespace XchainWallet.Coalescing

open Shared Function Reads

variable {V : Type*} {w w' : Reads V} {i s : ℕ}

/-- The text has the form of a key for single attempts. -/
def IsSingleKey (k : String) : Prop :=
  singleAttemptMark.toList <:+ k.toList ∧ k ≠ singleAttemptMark

instance (k : String) : Decidable (IsSingleKey k) := inferInstanceAs (Decidable (_ ∧ _))

/-! ### How the calls hang together -/

/-- The waiting calls, the sends in flight and the recent answers refer to sends of the same key, and a key
tells whether the call is a single attempt. -/
structure Linked (w : Reads V) : Prop where
  answered : ∀ i s, (w.requests i).stage = .answered s → (w.requests s).stage = .answered s
  waiting : ∀ s i, i ∈ (w.requests s).waiters →
    (w.requests s).stage = .sending ∧ (w.requests i).stage = .joined s
  nodup : ∀ s, (w.requests s).waiters.Nodup
  called : ∀ i s, (w.requests i).stage = .joined s → (w.requests s).stage ≠ .uncalled
  inFlight : ∀ k s, w.inFlight k = some s → (w.requests s).stage = .sending ∧ (w.requests s).key = some k
  recent : ∀ e ∈ w.recent, (w.requests e.send).stage = .answered e.send ∧
    (w.requests e.send).key = some e.key
  sameKey : ∀ i s, ((w.requests i).stage = .joined s ∨ (w.requests i).stage = .answered s) →
    i = s ∨ ∃ k, (w.requests i).key = some k ∧ (w.requests s).key = some k
  marked : ∀ i k, (w.requests i).key = some k → ((w.requests i).singleAttempt = true ↔ IsSingleKey k)

/-- The calls stand and are keyed as before, and no recent answer is new. -/
structure SameLinks (w w' : Reads V) : Prop where
  stage : ∀ i, (w'.requests i).stage = (w.requests i).stage
  key : ∀ i, (w'.requests i).key = (w.requests i).key
  singleAttempt : ∀ i, (w'.requests i).singleAttempt = (w.requests i).singleAttempt
  waiters : ∀ i, (w'.requests i).waiters = (w.requests i).waiters
  inFlight : w'.inFlight = w.inFlight
  recent : w'.recent ⊆ w.recent

theorem Linked.congr (h : Linked w) (hsame : SameLinks w w') : Linked w' where
  answered i s := by
    rw [hsame.stage, hsame.stage]
    exact h.answered i s
  waiting s i := by
    rw [hsame.waiters, hsame.stage, hsame.stage]
    exact h.waiting s i
  nodup s := by
    rw [hsame.waiters]
    exact h.nodup s
  called i s := by
    rw [hsame.stage, hsame.stage]
    exact h.called i s
  inFlight k s := by
    rw [hsame.inFlight, hsame.stage, hsame.key]
    exact h.inFlight k s
  recent e he := by
    rw [hsame.stage, hsame.key]
    exact h.recent e (hsame.recent he)
  sameKey i s := by
    rw [hsame.stage, hsame.key, hsame.key]
    exact h.sameKey i s
  marked i k := by
    rw [hsame.key, hsame.singleAttempt]
    exact h.marked i k

theorem SameLinks.of_eq (hrequests : w'.requests = w.requests) (hinFlight : w'.inFlight = w.inFlight)
    (hrecent : w'.recent ⊆ w.recent) : SameLinks w w' where
  stage i := by rw [hrequests]
  key i := by rw [hrequests]
  singleAttempt i := by rw [hrequests]
  waiters i := by rw [hrequests]
  inFlight := hinFlight
  recent := hrecent

@[simp]
theorem Reads.requests_setRequest_self (q : Request V) : (w.setRequest i q).requests i = q :=
  update_self _ _ _

variable {q : Request V}

theorem Reads.requests_setRequest_of_ne {j : ℕ} (h : j ≠ i) :
    (w.setRequest i q).requests j = w.requests j :=
  update_of_ne h _ _

/-- What a rewritten call keeps, every call keeps. -/
theorem Reads.field_setRequest {β : Type*} (f : Request V → β) (h : f q = f (w.requests i)) (j : ℕ) :
    f ((w.setRequest i q).requests j) = f (w.requests j) := by
  rcases eq_or_ne j i with rfl | hj
  · rw [requests_setRequest_self, h]
  · rw [requests_setRequest_of_ne hj]

/-! ### A call begins -/

/-- Nothing refers to a call before it begins. -/
theorem Linked.not_uncalled (h : Linked w) {j : ℕ}
    (hj : (w.requests j).stage = .joined s ∨ (w.requests j).stage = .answered s) :
    (w.requests s).stage ≠ .uncalled := by
  rcases hj with hj | hj
  · exact h.called j s hj
  · rw [h.answered j s hj]
    exact nofun

theorem Linked.begin (h : Linked w) (hi : (w.requests i).stage = .uncalled) {key : Option String}
    {singleAttempt : Bool} (hkey : ∀ k, key = some k → (singleAttempt = true ↔ IsSingleKey k)) :
    Linked (w.begin i key singleAttempt) := by
  have hstage : ∀ j, ((w.begin i key singleAttempt).requests j).stage = (w.requests j).stage :=
    field_setRequest Request.stage rfl
  have hwaiters : ∀ j, ((w.begin i key singleAttempt).requests j).waiters = (w.requests j).waiters :=
    field_setRequest Request.waiters rfl
  have hothers : ∀ j, (w.requests j).stage ≠ .uncalled →
      (w.begin i key singleAttempt).requests j = w.requests j := fun j hj =>
    requests_setRequest_of_ne fun hji => hj (hji ▸ hi)
  refine ⟨fun j s => ?_, fun s j => ?_, fun s => ?_, fun j s => ?_, fun k s hs => ?_, fun e he => ?_,
    fun j s hj => ?_, fun j k => ?_⟩
  · rw [hstage, hstage]
    exact h.answered j s
  · rw [hwaiters, hstage, hstage]
    exact h.waiting s j
  · rw [hwaiters]
    exact h.nodup s
  · rw [hstage, hstage]
    exact h.called j s
  · have hs := h.inFlight k s hs
    rw [hothers s (hs.1 ▸ nofun)]
    exact hs
  · have he := h.recent e he
    rw [hothers e.send (he.1 ▸ nofun)]
    exact he
  · rw [hstage] at hj
    rw [hothers s (h.not_uncalled hj), hothers j (by rcases hj with hj | hj <;> exact hj ▸ nofun)]
    exact h.sameKey j s hj
  · rcases eq_or_ne j i with rfl | hji
    · rw [begin, requests_setRequest_self]
      exact hkey k
    · rw [Reads.begin, Reads.requests_setRequest_of_ne hji]
      exact h.marked j k

/-- The key for a single attempt has the form of one. -/
theorem isSingleKey_append {k : String} (hk : k ≠ "") : IsSingleKey (k ++ singleAttemptMark) := by
  refine ⟨?_, fun h => hk ?_⟩
  · rw [String.toList_append]
    exact List.suffix_append _ _
  · have hlist := congrArg String.toList h
    rw [String.toList_append] at hlist
    exact String.toList_inj.mp (List.append_left_eq_self.mp hlist)

theorem effectiveKey_single {key : Option String} {signalled singleAttempt : Bool} {k : String}
    (hplain : singleAttempt = false → ∀ k ∈ effectiveKey key signalled singleAttempt, ¬IsSingleKey k)
    (hk : effectiveKey key signalled singleAttempt = some k) :
    singleAttempt = true ↔ IsSingleKey k := by
  cases singleAttempt with
  | false => exact iff_of_false nofun (hplain rfl k hk)
  | true =>
    refine iff_of_true rfl ?_
    simp only [effectiveKey] at hk
    split at hk
    · cases hk
    · split at hk
      · cases hk
      · split at hk
        · cases hk
        · next hne =>
          rw [if_pos trivial] at hk
          exact Option.some.inj hk ▸ isSingleKey_append hne

/-! ### What the calls are linked by, step for step -/

/-- A call that nothing refers to yet, or that no send waits for any more, moves on. -/
theorem Linked.move (h : Linked w) (hanswered : ∀ s, (w.requests i).stage ≠ .answered s)
    (hsending : (w.requests i).stage ≠ .sending) (hwaits : ∀ s, i ∉ (w.requests s).waiters)
    (hkey : q.key = (w.requests i).key) (hsingle : q.singleAttempt = (w.requests i).singleAttempt)
    (hwaiters : q.waiters = (w.requests i).waiters) (hcalled : q.stage ≠ .uncalled)
    (hsend : ∀ s, q.stage = .answered s → (w.requests s).stage = .answered s)
    (hjoined : ∀ s, q.stage = .joined s → (w.requests s).stage ≠ .uncalled)
    (hsame : ∀ s, q.stage = .joined s ∨ q.stage = .answered s →
      ∃ k, (w.requests i).key = some k ∧ (w.requests s).key = some k) :
    Linked (w.setRequest i q) := by
  have hkeys : ∀ j, ((w.setRequest i q).requests j).key = (w.requests j).key :=
    field_setRequest Request.key hkey
  have hlist : ∀ j, ((w.setRequest i q).requests j).waiters = (w.requests j).waiters :=
    field_setRequest Request.waiters hwaiters
  have hsingles : ∀ j, ((w.setRequest i q).requests j).singleAttempt = (w.requests j).singleAttempt :=
    field_setRequest Request.singleAttempt hsingle
  have hself : (w.setRequest i q).requests i = q := requests_setRequest_self q
  have hothers : ∀ {j}, j ≠ i → (w.setRequest i q).requests j = w.requests j :=
    requests_setRequest_of_ne
  refine ⟨fun j s hj => ?_, fun s j hj => ?_, fun s => ?_, fun j s hj => ?_, fun k s hs => ?_,
    fun e he => ?_, fun j s hj => ?_, fun j k => ?_⟩
  · have hs : (w.requests s).stage = .answered s := by
      rcases eq_or_ne j i with rfl | hji
      · exact hsend s (hself ▸ hj)
      · exact h.answered j s (hothers hji ▸ hj)
    rw [hothers fun hsi => hanswered s (hsi ▸ hs)]
    exact hs
  · rw [hlist] at hj
    have hs := h.waiting s j hj
    rw [hothers fun hsi => hsending (hsi ▸ hs.1), hothers fun hji => hwaits s (hji ▸ hj)]
    exact hs
  · rw [hlist]
    exact h.nodup s
  · rcases eq_or_ne s i with rfl | hsi
    · rw [hself]
      exact hcalled
    · rw [hothers hsi]
      rcases eq_or_ne j i with rfl | hji
      · exact hjoined s (hself ▸ hj)
      · exact h.called j s (hothers hji ▸ hj)
  · have hs := h.inFlight k s hs
    rw [hothers fun hsi => hsending (hsi ▸ hs.1)]
    exact hs
  · have he := h.recent e he
    rw [hothers fun hei => hanswered e.send (hei ▸ he.1)]
    exact he
  · rw [hkeys, hkeys]
    rcases eq_or_ne j i with rfl | hji
    · exact .inr (hsame s (hself ▸ hj))
    · exact h.sameKey j s (hothers hji ▸ hj)
  · rw [hkeys, hsingles]
    exact h.marked j k

theorem Linked.not_mem_waiters (h : Linked w) (hi : (w.requests i).stage = .uncalled) :
    i ∉ (w.requests s).waiters := fun hmem => by
  have hjoined := (h.waiting s i hmem).2
  rw [hi] at hjoined
  cases hjoined

theorem Linked.startSend (h : Linked w) (hi : (w.requests i).stage = .uncalled) :
    Linked (w.startSend i) := by
  have hmoved : Linked (w.setRequest i { w.requests i with stage := .sending }) :=
    h.move (by rw [hi]; exact nofun) (by rw [hi]; exact nofun) (fun _ => h.not_mem_waiters hi) rfl rfl rfl
      nofun nofun nofun (fun _ hs => by rcases hs with hs | hs <;> cases hs)
  refine { hmoved with inFlight := fun k s hs => ?_ }
  change ((w.setRequest i _).requests s).stage = .sending ∧ ((w.setRequest i _).requests s).key = some k
  rcases hkey : (w.requests i).key with _ | key
  · simp only [Reads.startSend, hkey] at hs
    exact hmoved.inFlight k s hs
  · simp only [Reads.startSend, hkey] at hs
    rcases eq_or_ne k key with rfl | hne
    · rw [update_self] at hs
      cases hs
      rw [requests_setRequest_self]
      exact ⟨rfl, hkey⟩
    · rw [update_of_ne hne] at hs
      exact hmoved.inFlight k s hs

theorem Linked.join (h : Linked w) (hi : (w.requests i).stage = .uncalled) {k : String}
    (hkey : (w.requests i).key = some k) (hs : w.inFlight k = some s) : Linked (w.join i s) := by
  obtain ⟨hsending, hskey⟩ := h.inFlight k s hs
  have hsi : s ≠ i := fun hsi => by
    rw [hsi, hi] at hsending
    cases hsending
  have hmoved : Linked (w.setRequest i { w.requests i with stage := .joined s }) :=
    h.move (by rw [hi]; exact nofun) (by rw [hi]; exact nofun) (fun _ => h.not_mem_waiters hi) rfl rfl rfl
      nofun nofun (fun _ hu => by cases hu; rw [hsending]; exact nofun)
      (fun _ hu => by rcases hu with hu | hu <;> cases hu; exact ⟨k, hkey, hskey⟩)
  set w' := w.setRequest i { w.requests i with stage := .joined s }
  have hself : (w'.requests i).stage = .joined s := by rw [requests_setRequest_self]
  have hs' : w'.requests s = w.requests s := requests_setRequest_of_ne hsi
  have hjoin : w.join i s =
      w'.setRequest s { w'.requests s with waiters := (w'.requests s).waiters ++ [i] } := rfl
  have hstage : ∀ j, ((w.join i s).requests j).stage = (w'.requests j).stage := by
    rw [hjoin]
    exact field_setRequest Request.stage rfl
  have hkeys : ∀ j, ((w.join i s).requests j).key = (w'.requests j).key := by
    rw [hjoin]
    exact field_setRequest Request.key rfl
  have hsingles : ∀ j, ((w.join i s).requests j).singleAttempt = (w'.requests j).singleAttempt := by
    rw [hjoin]
    exact field_setRequest Request.singleAttempt rfl
  refine ⟨fun j u => ?_, fun u j hj => ?_, fun u => ?_, fun j u => ?_, fun k u hu => ?_, fun e he => ?_,
    fun j u => ?_, fun j k => ?_⟩
  · rw [hstage, hstage]
    exact hmoved.answered j u
  · rw [hstage, hstage]
    rcases eq_or_ne u s with rfl | hus
    · rw [hjoin, requests_setRequest_self, List.mem_append, List.mem_singleton] at hj
      rcases hj with hj | rfl
      · exact hmoved.waiting u j hj
      · exact ⟨by rw [hs']; exact hsending, hself⟩
    · rw [hjoin, requests_setRequest_of_ne hus] at hj
      exact hmoved.waiting u j hj
  · rcases eq_or_ne u s with rfl | hus
    · rw [hjoin, requests_setRequest_self, hs']
      refine List.nodup_append.mpr ⟨h.nodup u, List.nodup_singleton i, fun a ha b hb => ?_⟩
      rw [List.mem_singleton.mp hb]
      exact fun hai => h.not_mem_waiters hi (hai ▸ ha)
    · rw [hjoin, requests_setRequest_of_ne hus]
      exact hmoved.nodup u
  · rw [hstage, hstage]
    exact hmoved.called j u
  · rw [hstage, hkeys]
    exact hmoved.inFlight k u hu
  · rw [hstage, hkeys]
    exact hmoved.recent e he
  · rw [hstage, hkeys, hkeys]
    exact hmoved.sameKey j u
  · rw [hkeys, hsingles]
    exact hmoved.marked j k

/-- A send is over: nobody waits for it, no read in flight is that send, and where it was answered, its
response may stay with the recent answers. -/
theorem Linked.finish (h : Linked w) (hs : (w.requests s).stage = .sending)
    (hrequests : w'.requests = update w.requests s q) (hkey : q.key = (w.requests s).key)
    (hsingle : q.singleAttempt = (w.requests s).singleAttempt) (hwaiters : q.waiters = [])
    (hstage : q.stage = .failed ∨ q.stage = .answered s)
    (hinFlight : ∀ k u, w'.inFlight k = some u → w.inFlight k = some u ∧ (w.requests s).key ≠ some k)
    (hrecent : ∀ e ∈ w'.recent, e ∈ w.recent ∨
      e.send = s ∧ q.stage = .answered s ∧ (w.requests s).key = some e.key) : Linked w' := by
  have hself : w'.requests s = q := by rw [hrequests, update_self]
  have hothers : ∀ {j}, j ≠ s → w'.requests j = w.requests j := fun hj => by
    rw [hrequests, update_of_ne hj]
  have hkeys : ∀ j, (w'.requests j).key = (w.requests j).key := fun j => by
    rcases eq_or_ne j s with rfl | hj
    · rw [hself, hkey]
    · rw [hothers hj]
  have hsingles : ∀ j, (w'.requests j).singleAttempt = (w.requests j).singleAttempt := fun j => by
    rcases eq_or_ne j s with rfl | hj
    · rw [hself, hsingle]
    · rw [hothers hj]
  refine ⟨fun j u hj => ?_, fun u j hj => ?_, fun u => ?_, fun j u hj => ?_, fun k u hu => ?_,
    fun e he => ?_, fun j u hj => ?_, fun j k => ?_⟩
  · rcases eq_or_ne j s with rfl | hjs
    · rw [hself] at hj
      rcases hstage with hq | hq
      · cases hq.symm.trans hj
      · cases hq.symm.trans hj
        rw [hself, hq]
    · have hu := h.answered j u (hothers hjs ▸ hj)
      rw [hothers fun hus => by rw [hus, hs] at hu; cases hu]
      exact hu
  · rcases eq_or_ne u s with rfl | hus
    · rw [hself, hwaiters] at hj
      exact absurd hj List.not_mem_nil
    · rw [hothers hus] at hj ⊢
      have hu := h.waiting u j hj
      rw [hothers fun hjs => by rw [hjs, hs] at hu; cases hu.2]
      exact hu
  · rcases eq_or_ne u s with rfl | hus
    · rw [hself, hwaiters]
      exact List.nodup_nil
    · rw [hothers hus]
      exact h.nodup u
  · rcases eq_or_ne u s with rfl | hus
    · rw [hself]
      rcases hstage with hq | hq
      · rw [hq]
        exact nofun
      · rw [hq]
        exact nofun
    · rw [hothers hus]
      refine h.called j u ?_
      rw [← hothers (j := j) fun hjs => ?_]
      · exact hj
      · rw [hjs, hself] at hj
        rcases hstage with hq | hq
        · cases hq.symm.trans hj
        · cases hq.symm.trans hj
  · obtain ⟨hu, hne⟩ := hinFlight k u hu
    have hu := h.inFlight k u hu
    rw [hothers fun hus => hne (hus ▸ hu.2)]
    exact hu
  · rcases hrecent e he with he | ⟨hsend, hq, hk⟩
    · have he := h.recent e he
      rw [hothers fun hes => by rw [hes, hs] at he; cases he.1]
      exact he
    · rw [hsend, hself]
      exact ⟨hq, hkey.trans hk⟩
  · rw [hkeys, hkeys]
    rcases eq_or_ne j s with rfl | hjs
    · rw [hself] at hj
      rcases hstage with hq | hq
      · rcases hj with hj | hj <;> cases hq.symm.trans hj
      · rcases hj with hj | hj <;> cases hq.symm.trans hj
        exact .inl rfl
    · exact h.sameKey j u (hothers hjs ▸ hj)
  · rw [hkeys, hsingles]
    exact h.marked j k

/-- A read in flight after the end of a send is another one. -/
theorem inFlight_endSend {k : String} {u : ℕ} (h : (w.endSend s).inFlight k = some u) :
    w.inFlight k = some u ∧ (w.requests s).key ≠ some k := by
  rcases hkey : (w.requests s).key with _ | key
  · simp only [endSend, hkey] at h
    exact ⟨h, nofun⟩
  · simp only [endSend, hkey] at h
    rcases eq_or_ne k key with rfl | hne
    · rw [update_self] at h
      cases h
    · rw [update_of_ne hne] at h
      exact ⟨h, fun hk => hne (Option.some.inj hk).symm⟩

/-- The calls that wait for a send that is over wait for nothing else. -/
theorem Linked.waits_of_finished (h : Linked w) (hs : (w.requests s).waiters = [])
    (hi : (w.requests i).stage = .joined s) (u : ℕ) : i ∉ (w.requests u).waiters := fun hmem => by
  have hu := (h.waiting u i hmem).2
  rw [hi] at hu
  cases hu
  rw [hs] at hmem
  exact absurd hmem List.not_mem_nil

/-- A call is rewritten that stands, is keyed and is waited for as before. -/
theorem SameLinks.setRequest (hstage : q.stage = (w.requests i).stage)
    (hkey : q.key = (w.requests i).key) (hsingle : q.singleAttempt = (w.requests i).singleAttempt)
    (hwaiters : q.waiters = (w.requests i).waiters) : SameLinks w (w.setRequest i q) where
  stage := field_setRequest Request.stage hstage
  key := field_setRequest Request.key hkey
  singleAttempt := field_setRequest Request.singleAttempt hsingle
  waiters := field_setRequest Request.waiters hwaiters
  inFlight := rfl
  recent _ he := he

/-- A change rewrites nothing that links the calls. -/
theorem Linked.change (h : Linked w) (c : Change String V) : Linked (w.change i c) := by
  set q : Request V := { w.requests i with changes := (w.requests i).changes ++ [c] } with hq
  have hlinked : Linked (w.setRequest i q) := h.congr (.setRequest rfl rfl rfl rfl)
  simp only [Reads.change, ← hq]
  split
  · next name value =>
    cases value with
    | plain v => exact hlinked.congr (.setRequest rfl rfl rfl rfl)
    | object v =>
      have hset : Linked ((w.setRequest i q).setRequest i
          { (w.setRequest i q).requests i with
            response := ((w.setRequest i q).requests i).response.set name
              (.object ⟨i, name, ((w.setRequest i q).requests i).made + 1⟩)
            made := ((w.setRequest i q).requests i).made + 1 }) :=
        hlinked.congr (.setRequest rfl rfl rfl rfl)
      exact hset.congr (.of_eq rfl rfl fun _ he => he)
  · simp only [writeObject]
    split
    · exact hlinked
    · exact hlinked.congr (.of_eq rfl rfl fun _ he => he)

end XchainWallet.Coalescing
