import XchainWallet.Bridge.Requests

/-!
# The ids of connected sites

`Numbered` holds in every reachable state: the stored records have ids of their own, and neither they, nor the
copies that the handlers hold, nor what the user took back is about an id that a new record may still get.
-/

namespace XchainWallet.Bridge

variable {wallet : Wallet} {w w' : BridgeState} {r : ℕ}

/-- The records have ids of their own, which no new record gets again. -/
structure Numbered (w : BridgeState) : Prop where
  distinct : Keyed.Distinct ConnectedSite.id w.sites
  sites : ∀ site ∈ w.sites, site.id < w.nextId
  copies : ∀ r site, (w.requests r).stage.copy = some site → site.id < w.nextId
  deleted : ∀ id, w.deleted id → id < w.nextId
  taken : ∀ id g, w.taken id g → id < w.nextId

theorem numbered_start (saved : Saved) (autoApprove : String → Bool) : Numbered (start saved autoApprove) where
  distinct := saved.distinct
  sites := saved.below
  copies := fun _ _ hcopy => by cases hcopy
  deleted := fun _ hdeleted => hdeleted.elim
  taken := fun _ _ htaken => htaken.elim

/-- A stored record is the only one under its id. -/
theorem Numbered.eq_of_id (h : Numbered w) {a b : ConnectedSite} (ha : a ∈ w.sites) (hb : b ∈ w.sites)
    (hid : a.id = b.id) : a = b := by
  have hfinda := (Keyed.find_eq_some h.distinct).mpr ⟨ha, rfl⟩
  have hfindb := (Keyed.find_eq_some h.distinct).mpr ⟨hb, hid.symm⟩
  exact Option.some.inj (hfinda.symm.trans hfindb)

/-! ### Requests -/

/-- Requests change, and none of them holds a copy of a record to come. -/
theorem Numbered.setRequests (h : Numbered w) {requests : ℕ → Request}
    (hcopy : ∀ s site, (requests s).stage.copy = some site → site.id < w.nextId) :
    Numbered { w with requests := requests } :=
  { h with copies := hcopy }

theorem Numbered.setRequest (h : Numbered w) {q : Request}
    (hcopy : ∀ site, q.stage.copy = some site → site.id < w.nextId) : Numbered (w.setRequest r q) := by
  refine h.setRequests fun s site hsite => ?_
  rcases eq_or_ne s r with rfl | hsr
  · rw [Function.update_self] at hsite
    exact hcopy site hsite
  · rw [Function.update_of_ne hsr] at hsite
    exact h.copies s site hsite

/-- A request goes on without a copy. -/
theorem Numbered.leave (h : Numbered w) {q : Request} (hcopy : q.stage.copy = none) :
    Numbered (w.setRequest r q) :=
  h.setRequest fun site hsite => by
    rw [hcopy] at hsite
    cases hsite

variable {site : ConnectedSite}

/-- A request goes on with a copy. -/
theorem Numbered.keep (h : Numbered w) {q : Request} (hcopy : q.stage.copy = some site)
    (hid : site.id < w.nextId) : Numbered (w.setRequest r q) :=
  h.setRequest fun other hother => by
    obtain rfl := Option.some.inj (hcopy.symm.trans hother)
    exact hid

theorem Numbered.next (h : Numbered w) (hid : site.id < w.nextId) : Numbered (w.next r site) := by
  simp only [BridgeState.next]
  split
  · exact h.leave rfl
  · exact h.keep rfl hid

/-- A connect ends: the tabs behind it hold no copy. -/
theorem Numbered.endConnect (h : Numbered w) (ok : Bool) : Numbered (w.endConnect r ok) := by
  have hended : Numbered (w.setStage r .finished) := h.leave rfl
  have hcopies : ∀ s site, ((w.endConnect r ok).requests s).stage.copy = some site → site.id < w.nextId := by
    intro s site hcopy
    rcases requests_endConnect w r ok s with hsame | ⟨-, -, hnew⟩
    · rw [hsame] at hcopy
      exact hended.copies s site hcopy
    · rw [hnew] at hcopy
      cases ok <;> cases hcopy
  obtain ⟨requests, connectsInFlight, hframe⟩ := endConnect_frame w r ok
  rw [hframe] at hcopies ⊢
  exact { h with copies := hcopies }

/-! ### Writes -/

theorem Numbered.put (h : Numbered w) (hid : site.id < w.nextId) : Numbered (w.put site) :=
  { h with
    distinct := h.distinct.upsert
    sites := fun other hother => by
      rcases Keyed.mem_upsert hother with rfl | hother
      · exact hid
      · exact h.sites other hother }

theorem Numbered.delete (h : Numbered w) (id : ℕ) : Numbered (w.delete id) where
  distinct := h.distinct.erase
  sites := fun site hsite => h.sites site (Keyed.mem_of_mem_erase hsite)
  copies := h.copies
  deleted := fun j hj => by
    rcases hj with ⟨rfl, site, hsite, hid⟩ | hj
    · exact hid ▸ h.sites site hsite
    · exact h.deleted j hj
  taken := h.taken

/-- A new record takes the next id. -/
theorem Numbered.store (h : Numbered w) {p : SitePermissions} {autoApproved : Bool} {lastUsedAt : ℕ} :
    Numbered (w.store r p autoApproved lastUsedAt) := by
  have hput : Numbered { w.put ⟨w.nextId, (w.requests r).origin, lastUsedAt, p, autoApproved⟩ with
      nextId := w.nextId + 1 } :=
    { distinct := h.distinct.upsert
      sites := fun other hother => by
        rcases Keyed.mem_upsert hother with rfl | hother
        · exact Nat.lt_succ_self _
        · exact Nat.lt_succ_of_lt (h.sites other hother)
      copies := fun s other hcopy => Nat.lt_succ_of_lt (h.copies s other hcopy)
      deleted := fun id hid => Nat.lt_succ_of_lt (h.deleted id hid)
      taken := fun id g hg => Nat.lt_succ_of_lt (h.taken id g hg) }
  exact hput.leave rfl

/-- Something is taken back from a record, or given again. -/
theorem Numbered.takeBack (h : Numbered w) {id : ℕ} (hid : id < w.nextId) (p : SitePermissions) :
    Numbered (w.takeBack id p) :=
  { h with
    copies := h.copies
    taken := fun j g hg => by
      rcases hg with hg | ⟨rfl, -, -⟩
      · exact h.taken j g hg
      · exact hid }

theorem Numbered.giveBack (h : Numbered w) (id : ℕ) (p : Grant → Prop) : Numbered (w.giveBack id p) :=
  { h with taken := fun j g hg => h.taken j g hg.1 }

theorem Numbered.edit (h : Numbered w) (hsite : site ∈ w.sites) (p : SitePermissions) :
    Numbered (w.edit site p) :=
  ((h.takeBack (h.sites site hsite) p).giveBack site.id p.Grants).put (h.sites site hsite)

/-! ### Steps -/

theorem Numbered.ask (h : Numbered w) (hid : site.id < w.nextId) :
    Numbered (w.ask wallet r site) := by
  simp only [BridgeState.ask]
  split
  · exact h.keep rfl hid
  · split
    · exact h.leave rfl
    · split
      · exact h.next hid
      · split
        · exact h.keep rfl hid
        · exact h.keep rfl hid

theorem Numbered.useCache (h : Numbered w) (hid : site.id < w.nextId) :
    Numbered (w.useCache wallet r site) := by
  simp only [BridgeState.useCache]
  split
  · exact h.leave rfl
  · split
    · exact h.next hid
    · refine h.keep ?_ hid
      simp only
      split <;> rfl

theorem Numbered.approve (h : Numbered w) (hid : site.id < w.nextId) (decision : Decision) :
    Numbered (w.approve r site decision) := by
  simp only [BridgeState.approve]
  split
  · exact h.keep rfl hid
  · exact (h.giveBack site.id _).keep rfl hid

theorem Numbered.assertGrantStillHeld (h : Numbered w) (hid : site.id < w.nextId) :
    Numbered (w.assertGrantStillHeld r site) := by
  simp only [BridgeState.assertGrantStillHeld]
  split
  · exact h.next hid
  · split
    · exact h.keep rfl hid
    · exact h.next hid

theorem Numbered.sign (h : Numbered w) (hid : site.id < w.nextId)
    (hstage : (w.requests r).stage.copy = some site) : Numbered (w.sign wallet r site) := by
  simp only [BridgeState.sign]
  split
  · exact h.leave rfl
  · split
    · exact h.next hid
    · have hanswered : Numbered (w.setRequest r { w.requests r with
          answers := (w.requests r).answers ++ [((w.requests r).approvedAt, ‹Answer›)] }) :=
        h.keep hstage hid
      split
      · exact hanswered.keep rfl hid
      · exact hanswered.next hid

theorem Numbered.touchLastUsed (h : Numbered w) {lastUsedAt : ℕ} {stage : Stage}
    (hid : site.id < w.nextId) (hstage : stage.copy = none ∨ stage.copy = some site) :
    Numbered (w.touchLastUsed r site lastUsedAt stage) := by
  have hput : Numbered (w.put { site with lastUsedAt := lastUsedAt }) := h.put hid
  rcases hstage with hstage | hstage
  · exact hput.leave hstage
  · exact hput.keep hstage hid

theorem Numbered.updateSitePermissions (h : Numbered w) {p : SitePermissions} {lastUsedAt : ℕ}
    (hid : site.id < w.nextId) : Numbered (w.updateSitePermissions r site p lastUsedAt) := by
  have hput : Numbered (w.put { site with permissions := p, lastUsedAt := lastUsedAt }) := h.put hid
  exact hput.next hid

theorem Numbered.readCurrent (h : Numbered w) {method : Method} :
    Numbered (w.readCurrent wallet r method site) := by
  simp only [BridgeState.readCurrent]
  split
  · exact h.leave rfl
  · split
    · split
      · exact h.leave rfl
      · exact h.leave rfl
    · exact h.leave rfl

theorem Numbered.connectAnew (h : Numbered w) : Numbered (w.connectAnew r) := by
  simp only [BridgeState.connectAnew]
  split
  · exact h.leave rfl
  · have hasked : Numbered (w.setStage r .connecting) := h.leave rfl
    exact { hasked with }

theorem Numbered.lookUp (h : Numbered w) {method : Method} : Numbered (w.lookUp wallet r method) := by
  simp only [BridgeState.lookUp]
  split
  · split
    · exact h.connectAnew
    · exact h.leave rfl
  · next site hfind =>
    have hid : site.id < w.nextId := h.sites site (Keyed.mem_of_find hfind)
    split
    · split
      · exact h.leave rfl
      · exact h.keep rfl hid
    · exact h.leave rfl
    · exact h.keep rfl hid
    · split
      · exact h.leave rfl
      · exact h.leave rfl

theorem Numbered.lookAgain (h : Numbered w) {p : SitePermissions} {autoApproved : Bool} :
    Numbered (w.lookAgain r p autoApproved) := by
  simp only [BridgeState.lookAgain]
  split
  · next stored hfind =>
    exact h.keep rfl (h.sites stored (Keyed.mem_of_find hfind))
  · exact h.leave rfl

theorem Numbered.drop (h : Numbered w) {method : Method} : Numbered (w.drop r method site) := by
  simp only [BridgeState.drop]
  split
  · exact (h.delete site.id).connectAnew
  · exact (h.delete site.id).leave rfl

theorem Numbered.removeAccounts (h : Numbered w) {accounts : List String} (hid : site.id < w.nextId) : Numbered (w.removeAccounts r site accounts) := by
  simp only [BridgeState.removeAccounts]
  split
  · exact (h.delete site.id).leave rfl
  · have hput : Numbered ((w.takeBack site.id (BridgeState.withoutAccounts site.permissions accounts)).put
        { site with permissions := BridgeState.withoutAccounts site.permissions accounts }) :=
      (h.takeBack hid _).put hid
    exact hput.leave rfl

theorem Numbered.step (h : Numbered w) {a : Act} (hstep : step wallet w a = some w') : Numbered w' := by
  have hcopy : ∀ {r stage site}, (w.requests r).stage = stage → stage.copy = some site →
      site.id < w.nextId := fun hstage hsite => h.copies _ _ (hstage ▸ hsite)
  cases moves_of_step hstep with
  | arrive hstage horigin hstageNew =>
    exact h.leave (congrArg Stage.copy hstageNew)
  | lookUp hstage => exact h.lookUp
  | readCurrent hstage => exact h.readCurrent
  | touchFound hstage =>
    exact h.touchLastUsed (hcopy hstage rfl) (.inr rfl)
  | touchStored hstage => exact h.touchLastUsed (hcopy hstage rfl) (.inl rfl)
  | ask hstage => exact h.ask (hcopy hstage rfl)
  | useCache hstage => exact h.useCache (hcopy hstage rfl)
  | approve hstage => exact h.approve (hcopy hstage rfl) _
  | recheck hstage => exact h.assertGrantStillHeld (hcopy hstage rfl)
  | sign hstage => exact h.sign (hcopy hstage rfl) (by rw [hstage]; rfl)
  | save hstage hsave => exact h.updateSitePermissions (hcopy hstage rfl)
  | drop hstage => exact h.drop
  | grant hstage => exact h.leave rfl
  | lookAgain hstage => exact h.lookAgain
  | store hstage => exact h.store
  | answerConnect hstage =>
    refine Numbered.endConnect (h.leave ?_) true
    exact congrArg Stage.copy hstage
  | refuse hstage =>
    rcases hstage with hstage | hstage | hstage | hstage
    · exact h.next (hcopy hstage rfl)
    · exact h.next (hcopy hstage rfl)
    · exact h.next (hcopy hstage rfl)
    · exact h.next (hcopy hstage rfl)
  | fail hidle hfinished => exact h.endConnect false
  | delete => exact h.delete _
  | edit hsite hid => exact h.edit hsite _
  | startRemoval hstage hsite => exact h.keep rfl (h.sites _ hsite)
  | removeAccounts hstage => exact h.removeAccounts (hcopy hstage rfl)
  | setAutoApprove => exact { h with }

end XchainWallet.Bridge
