import XchainWallet.Bridge.Numbered
import XchainWallet.Leases.Copies

/-!
# What the user took back stays taken back

`Respected` says that no deleted record is stored, and that no stored record grants what the user took back
and has not given again. A handler writes the copy that it read back to the store, for the time of the last
use or with a permission that the user wants to keep, so this fails where the record was deleted or narrowed
in between. It holds in every run in which no stale copy is written back (`respected_of_run`). The stored
records and the copies are an instance of `Leases.Kept`.
-/

namespace XchainWallet.Bridge

open Function Transition

variable {wallet : Wallet} {w w' : BridgeState} {r : ℕ}

/-- No deleted record is stored, and no record grants what was taken back. -/
def Respected (w : BridgeState) : Prop :=
  ∀ site ∈ w.sites, ¬w.deleted site.id ∧ ∀ g, w.taken site.id g → ¬site.permissions.Grants g

/-- A copy is written back only while it is not stale. -/
def FreshWrite (w : BridgeState) : Act → Prop
  | .touch r _ | .save r _ | .removeAccounts r => ¬(w.requests r).stale
  | _ => True

/-! ### The sites as leases -/

def SitePermissions.grants (p : SitePermissions) : Set Grant := { g | p.Grants g }

/-- A record with these grants is stored under `k`. -/
def BridgeState.Stored (w : BridgeState) (k : ℕ) (P : Set Grant) : Prop :=
  ∃ site ∈ w.sites, site.id = k ∧ P = site.permissions.grants

/-- The request `r` may write these grants under `k`. -/
def BridgeState.MayWrite (w : BridgeState) (r k : ℕ) (W : Set Grant) : Prop :=
  ¬(w.requests r).stale ∧ W = { g | (w.requests r).Writes k g } ∧
    ∃ site, (w.requests r).stage.copy = some site ∧ site.id = k

/-- Stored records and copies are kept apart from what was deleted or taken back. -/
def Sound (w : BridgeState) : Prop :=
  Leases.Kept w.Stored w.MayWrite { k | w.deleted k } fun k => { g | w.taken k g }

theorem Sound.respected (h : Sound w) : Respected w := fun site hsite => by
  obtain ⟨hdeleted, hdisjoint⟩ := h.stored site.id _ ⟨site, hsite, rfl, rfl⟩
  exact ⟨hdeleted, fun g htaken hgrants => Set.disjoint_left.mp hdisjoint hgrants htaken⟩

theorem sound_start (saved : Saved) (autoApprove : String → Bool) : Sound (start saved autoApprove) where
  stored := fun _ P _ => ⟨not_false, Set.disjoint_empty P⟩
  writes := fun _ _ _ hW => by
    obtain ⟨-, -, site, hcopy, -⟩ := hW
    cases hcopy

/-! ### Rewriting one request -/

/-- The request holds no copy, or a copy of a stored record, or the copy that it held before. -/
def Held (w : BridgeState) (old new : Request) : Prop :=
  ∀ site, new.stage.copy = some site →
    (site ∈ w.sites ∧ new.toSave = none) ∨
      (old.stage.copy = some site ∧ (old.stale → new.stale) ∧ ∀ p, new.toSave = some p → old.toSave = some p)

theorem Sound.setRequest (h : Sound w) {q : Request} (hq : Held w (w.requests r) q) :
    Sound (w.setRequest r q) := by
  refine h.mono (fun k P hP => .inl hP) fun s k W hW => ?_
  rcases eq_or_ne s r with rfl | hsr
  · obtain ⟨hstale, rfl, site, hcopy, rfl⟩ := hW
    simp only [BridgeState.setRequest, update_self] at hstale hcopy ⊢
    rcases hq site hcopy with ⟨hmem, hsave⟩ | ⟨hold, hfresh, hsave⟩
    · refine .inl ⟨_, ⟨site, hmem, rfl, rfl⟩, fun g hg => ?_⟩
      obtain ⟨site', hcopy', -, hg | ⟨p, hp, -⟩⟩ := hg
      · cases hcopy.symm.trans hcopy'
        exact hg
      · rw [hsave] at hp
        cases hp
    · refine .inr ⟨s, _, ⟨fun hs => hstale (hfresh hs), rfl, site, hold, rfl⟩, fun g hg => ?_⟩
      obtain ⟨site', hcopy', -, hg⟩ := hg
      cases hcopy.symm.trans hcopy'
      refine ⟨site, hold, rfl, hg.imp_right ?_⟩
      rintro ⟨p, hp, hgrants⟩
      exact ⟨p, hsave p hp, hgrants⟩
  · simp only [BridgeState.MayWrite, BridgeState.setRequest, update_of_ne hsr] at hW
    exact .inr ⟨s, W, hW, subset_rfl⟩

/-- A request that goes on with the copy it held. -/
theorem held_of_copy {old new : Request} (hcopy : ∀ site, new.stage.copy = some site →
      old.stage.copy = some site) (hstale : new.stale = old.stale)
    (hsave : new.toSave = old.toSave ∨ new.toSave = none) : Held w old new := by
  refine fun site hsite => .inr ⟨hcopy site hsite, fun hs => hstale ▸ hs, fun p hp => ?_⟩
  rcases hsave with hsave | hsave
  · exact hsave ▸ hp
  · rw [hsave] at hp
    cases hp

/-- A request that holds no copy any more. -/
theorem held_none {old new : Request} (hcopy : new.stage.copy = none) : Held w old new :=
  fun site hsite => by
    rw [hcopy] at hsite
    cases hsite

theorem Sound.leave (h : Sound w) {q : Request} (hcopy : q.stage.copy = none) : Sound (w.setRequest r q) :=
  h.setRequest (held_none hcopy)

theorem Sound.setStage (h : Sound w) {stage : Stage}
    (hcopy : ∀ site, stage.copy = some site → (w.requests r).stage.copy = some site) :
    Sound (w.setStage r stage) :=
  h.setRequest (held_of_copy hcopy rfl (.inl rfl))

variable {site : ConnectedSite}

theorem Sound.next (h : Sound w) (hcopy : (w.requests r).stage.copy = some site) :
    Sound (w.next r site) := by
  refine h.setRequest (held_of_copy (fun other hother => ?_) rfl (.inr rfl))
  simp only at hother
  split at hother
  · cases hother
  · cases hother
    exact hcopy

/-! ### Writing the store -/

theorem stored_put {k : ℕ} {P : Set Grant} (h : (w.put site).Stored k P) :
    w.Stored k P ∨ k = site.id ∧ P = site.permissions.grants := by
  obtain ⟨other, hmem, hid, hP⟩ := h
  rcases Keyed.mem_upsert hmem with rfl | hmem
  · exact .inr ⟨hid.symm, hP⟩
  · exact .inl ⟨other, hmem, hid, hP⟩

/-- A copy that is not stale is written, with or without what the user wants to keep. -/
theorem Sound.put (h : Sound w) {site copy : ConnectedSite}
    (hcopy : (w.requests r).stage.copy = some copy) (hstale : ¬(w.requests r).stale)
    (hid : site.id = copy.id)
    (hgrants : ∀ g, site.permissions.Grants g → (w.requests r).Writes copy.id g) : Sound (w.put site) := by
  refine h.mono (fun k P hP => ?_) fun s k W hW => .inr ⟨s, W, hW, subset_rfl⟩
  rcases stored_put hP with hP | ⟨rfl, rfl⟩
  · exact .inl hP
  · refine .inr ⟨r, _, ⟨hstale, rfl, copy, hcopy, hid.symm⟩, fun g hg => ?_⟩
    rw [hid]
    exact hgrants g hg

variable {p : SitePermissions}

/-- A new record is stored, under an id that no record had. -/
theorem Sound.store (h : Sound w) (hn : Numbered w) {autoApproved : Bool} {lastUsedAt : ℕ} :
    Sound (w.store r p autoApproved lastUsedAt) := by
  have hfresh : ¬w.deleted w.nextId := fun hdeleted => (hn.deleted _ hdeleted).false
  have htaken : ∀ g, ¬w.taken w.nextId g := fun g hg => (hn.taken _ g hg).false
  have hput : Sound { w.put ⟨w.nextId, (w.requests r).origin, lastUsedAt, p, autoApproved⟩ with
      nextId := w.nextId + 1 } :=
    h.create hfresh (Set.eq_empty_of_forall_notMem htaken) fun k P hP => (stored_put hP).imp_right And.left
  exact Sound.leave hput rfl

/-- A record is deleted, and the copies of it are stale. -/
theorem Sound.delete (h : Sound w) (hn : Numbered w) (id : ℕ) : Sound (w.delete id) := by
  have hgone : ∀ k P, (w.delete id).Stored k P → k ≠ id ∧ w.Stored k P := by
    rintro k P ⟨site, hsite, rfl, hP⟩
    have hnone := Keyed.find_erase_self (k := id) hn.distinct
    exact ⟨Keyed.find_eq_none.mp hnone site hsite, site, Keyed.mem_of_mem_erase hsite, rfl, hP⟩
  have hwrites : ∀ r k W, (w.delete id).MayWrite r k W → k ≠ id ∧ w.MayWrite r k W := by
    rintro r k W ⟨hstale, hW, site, hcopy, rfl⟩
    exact ⟨fun hid => hstale (.inr ⟨site, hcopy, hid⟩), fun hs => hstale (.inl hs), hW, site, hcopy, rfl⟩
  by_cases hid : ∃ site ∈ w.sites, site.id = id
  · have hset : { k | (w.delete id).deleted k } = insert id { k | w.deleted k } := by
      ext k
      simp only [BridgeState.delete, hid, and_true, Set.mem_ofPred_eq, Set.mem_insert_iff]
    rw [Sound, hset]
    exact Leases.Kept.delete h hgone hwrites
  · have hset : { k | (w.delete id).deleted k } = { k | w.deleted k } := by
      ext k
      simp only [BridgeState.delete, hid, and_false, false_or, Set.mem_ofPred_eq]
    rw [Sound, hset]
    exact h.mono (fun k P hP => .inl (hgone k P hP).2)
      fun r k W hW => .inr ⟨r, W, (hwrites r k W hW).2, subset_rfl⟩

/-! ### The word of the user -/

/-- The record of `site` is rewritten: what it granted and grants no more is taken back. -/
theorem Sound.rewrite (h : Sound w) (hn : Numbered w) {taken' : ℕ → Grant → Prop}
    (hdeleted : ¬w.deleted site.id)
    (htaken : ∀ j g, taken' j g → (w.taken j g ∧ (j = site.id → ¬p.Grants g)) ∨
      j = site.id ∧ w.Granted site.id g ∧ ¬p.Grants g) :
    Sound (BridgeState.put { w.takeBack site.id p with taken := taken' }
      { site with permissions := p }) := by
  have hapart : Disjoint p.grants { g | taken' site.id g } := Set.disjoint_left.mpr fun g hg hg' => by
    rcases htaken site.id g hg' with ⟨-, hnot⟩ | ⟨-, -, hnot⟩
    · exact hnot rfl hg
    · exact hnot hg
  refine Leases.Kept.rewrite h { g | w.Granted site.id g } htaken hdeleted hapart ?_ ?_
  · rintro j P ⟨other, hother, rfl, rfl⟩
    rcases eq_or_ne other.id site.id with hid | hid
    · refine .inr ⟨hid, ?_⟩
      have hfound := (Keyed.find_eq_some hn.distinct.upsert).mpr ⟨hother, hid⟩
      rw [Keyed.find_upsert, if_pos rfl] at hfound
      exact congrArg (fun s => s.permissions.grants) (Option.some.inj hfound).symm
    · rcases Keyed.mem_upsert hother with rfl | hother
      · exact absurd rfl hid
      · exact .inl ⟨hid, other, hother, rfl, rfl⟩
  · rintro s j W ⟨hstale, rfl, copy, hcopy, rfl⟩
    refine ⟨⟨fun hs => hstale (.inl hs), rfl, copy, hcopy, rfl⟩, fun hid g hg hgranted => ?_⟩
    by_contra hnot
    exact hstale (.inr ⟨g, hid ▸ hg, hgranted, hnot⟩)

theorem Sound.edit (h : Sound w) (hn : Numbered w) (hsite : site ∈ w.sites) (p : SitePermissions) :
    Sound (w.edit site p) := by
  refine h.rewrite hn (h.stored _ _ ⟨site, hsite, rfl, rfl⟩).1 ?_
  rintro j g ⟨htaken | ⟨rfl, hgranted, hnot⟩, hgiven⟩
  · exact .inl ⟨htaken, fun hj hg => hgiven ⟨hj, hg⟩⟩
  · exact .inr ⟨rfl, hgranted, hnot⟩

/-- Permissions without some of their accounts grant nothing else, unless no account is left. -/
theorem grants_withoutAccounts {accounts : List String}
    (hleft : (BridgeState.withoutAccounts p accounts).accounts ≠ []) {g : Grant}
    (hg : (BridgeState.withoutAccounts p accounts).Grants g) : p.Grants g := by
  cases g with
  | account id =>
    refine .inr ?_
    exact (List.mem_filter.mp (hg.resolve_left hleft)).1
  | chain chainId | message | action name | alwaysAction name => exact hg

/-- The accounts of a removed wallet leave the grant. -/
theorem Sound.removeAccounts (h : Sound w) (hn : Numbered w) {accounts : List String}
    (hstage : (w.requests r).stage = .removing site accounts) (hstale : ¬(w.requests r).stale) :
    Sound (w.removeAccounts r site accounts) := by
  have hcopy : (w.requests r).stage.copy = some site := by rw [hstage]; rfl
  simp only [BridgeState.removeAccounts]
  split
  · exact (h.delete hn site.id).leave rfl
  · next hleft =>
    obtain ⟨hdeleted, hdisjoint⟩ := h.writes r site.id _ ⟨hstale, rfl, site, hcopy, rfl⟩
    refine Sound.leave (h.rewrite hn hdeleted fun j g htaken => ?_) rfl
    rcases htaken with htaken | ⟨rfl, hgranted, hnot⟩
    · refine .inl ⟨htaken, ?_⟩
      rintro rfl hg
      have hwrites : (w.requests r).Writes site.id g :=
        ⟨site, hcopy, rfl, .inl (grants_withoutAccounts hleft hg)⟩
      exact Set.disjoint_left.mp hdisjoint hwrites htaken
    · exact .inr ⟨rfl, hgranted, hnot⟩

/-- The user approves, and gives what is to be kept. -/
theorem Sound.approve (h : Sound w) (hstage : (w.requests r).stage = .prompted site)
    (decision : Decision) : Sound (w.approve r site decision) := by
  have hcopy : (w.requests r).stage.copy = some site := by rw [hstage]; rfl
  have hsame : ∀ other, (Stage.approved site).copy = some other → other = site := fun other hother =>
    (Option.some.inj hother).symm
  simp only [BridgeState.approve]
  split
  · refine h.setRequest (held_of_copy (fun other hother => ?_) rfl (.inl rfl))
    rw [hcopy]
    exact hother
  · set toSave := if decision.savePermanent then
      (w.requests r).work.head?.bind (savedPermissions site.permissions) else none with htoSave
    set q : Request := { w.requests r with
      decision := decision, approvedAt := w.now, toSave := toSave, stage := .approved site } with hq
    set X : Set Grant := { g | ∃ p, toSave = some p ∧ p.Grants g ∧ ¬site.permissions.Grants g } with hX
    refine Leases.Kept.give h (k := site.id) (X := X) (fun j g hg => hg.1)
      (Set.disjoint_left.mpr fun g hg htaken => htaken.2 ⟨rfl, hg⟩) fun s k W hW => ?_
    rcases eq_or_ne s r with rfl | hsr
    · obtain ⟨hstale, rfl, other, hother, rfl⟩ := hW
      simp only [BridgeState.setRequest, update_self] at hstale hother ⊢
      cases hsame other hother
      refine .inr ⟨rfl, _, ⟨hstale, rfl, site, hcopy, rfl⟩, fun g hg => ?_⟩
      obtain ⟨other, hother, -, hg | ⟨p, hp, hg⟩⟩ := hg
      · cases hsame other hother
        exact .inl ⟨site, hcopy, rfl, .inl hg⟩
      · by_cases hold : site.permissions.Grants g
        · exact .inl ⟨site, hcopy, rfl, .inl hold⟩
        · exact .inr ⟨p, hp, hg, hold⟩
    · simp only [BridgeState.MayWrite, BridgeState.setRequest, update_of_ne hsr] at hW
      exact .inl hW

/-! ### The steps of a signing method -/

theorem Sound.ask (h : Sound w) (hcopy : (w.requests r).stage.copy = some site) :
    Sound (w.ask wallet r site) := by
  have hkeep : ∀ {stage : Stage}, stage.copy = some site → Sound (w.setStage r stage) := fun hstage =>
    h.setStage fun other hother => by
      rw [hstage] at hother
      exact hother ▸ hcopy
  simp only [BridgeState.ask]
  split
  · exact hkeep rfl
  · split
    · exact h.leave rfl
    · split
      · exact h.next hcopy
      · split
        · exact hkeep rfl
        · exact hkeep rfl

theorem Sound.useCache (h : Sound w) (hcopy : (w.requests r).stage.copy = some site) :
    Sound (w.useCache wallet r site) := by
  simp only [BridgeState.useCache]
  split
  · exact h.leave rfl
  · split
    · exact h.next hcopy
    · refine h.setRequest (held_of_copy (fun other hother => ?_) rfl (.inl rfl))
      simp only at hother
      split at hother
      · exact hcopy.trans hother
      · exact hcopy.trans hother

theorem Sound.assertGrantStillHeld (h : Sound w) (hcopy : (w.requests r).stage.copy = some site) :
    Sound (w.assertGrantStillHeld r site) := by
  simp only [BridgeState.assertGrantStillHeld]
  split
  · exact h.next hcopy
  · split
    · exact h.setStage fun other hother => hcopy.trans hother
    · exact h.next hcopy

theorem Sound.sign (h : Sound w) (hcopy : (w.requests r).stage.copy = some site) :
    Sound (w.sign wallet r site) := by
  simp only [BridgeState.sign]
  split
  · exact h.leave rfl
  · split
    · exact h.next hcopy
    · next answer _ =>
      set q : Request := { w.requests r with
        answers := (w.requests r).answers ++ [((w.requests r).approvedAt, answer)] } with hq
      have hanswered : Sound (w.setRequest r q) :=
        h.setRequest (held_of_copy (fun _ hother => hother) rfl (.inl rfl))
      have hcopy' : ((w.setRequest r q).requests r).stage.copy = some site := by
        simp only [BridgeState.setRequest, update_self, hq]
        exact hcopy
      split
      · exact hanswered.setStage fun other hother => hcopy'.trans hother
      · exact hanswered.next hcopy'

theorem Sound.touchLastUsed (h : Sound w) {lastUsedAt : ℕ} {stage : Stage}
    (hcopy : (w.requests r).stage.copy = some site) (hstale : ¬(w.requests r).stale)
    (hstage : stage.copy = none ∨ stage.copy = some site) :
    Sound (w.touchLastUsed r site lastUsedAt stage) := by
  have hput : Sound (w.put { site with lastUsedAt := lastUsedAt }) :=
    h.put hcopy hstale rfl fun g hg => ⟨site, hcopy, rfl, .inl hg⟩
  rcases hstage with hstage | hstage
  · exact hput.leave hstage
  · exact hput.setStage fun other hother => hcopy.trans (hstage.symm.trans hother)

theorem Sound.updateSitePermissions (h : Sound w) {lastUsedAt : ℕ}
    (hcopy : (w.requests r).stage.copy = some site) (hstale : ¬(w.requests r).stale)
    (hsave : (w.requests r).toSave = some p) :
    Sound (w.updateSitePermissions r site p lastUsedAt) := by
  have hput : Sound (w.put { site with permissions := p, lastUsedAt := lastUsedAt }) :=
    h.put hcopy hstale rfl fun g hg => ⟨site, hcopy, rfl, .inr ⟨p, hsave, hg⟩⟩
  exact hput.next hcopy

/-! ### The steps of the other methods -/

theorem Sound.readCurrent (h : Sound w) {method : Method} :
    Sound (w.readCurrent wallet r method site) := by
  simp only [BridgeState.readCurrent]
  split
  · exact h.leave rfl
  · split
    · split
      · exact h.leave rfl
      · exact h.leave rfl
    · exact h.leave rfl

/-- A change of the map of connects in flight is none to what is kept. -/
theorem Sound.setConnects (h : Sound w) (f : String → Option ℕ) :
    Sound { w with connectsInFlight := f } :=
  h

theorem Sound.connectAnew (h : Sound w) : Sound (w.connectAnew r) := by
  simp only [BridgeState.connectAnew]
  split
  · exact h.leave rfl
  · have hasked : Sound (w.setStage r .connecting) := h.leave rfl
    exact hasked.setConnects _

/-- A connect ends: the tabs behind it hold no copy. -/
theorem Sound.endConnect (h : Sound w) (ok : Bool) : Sound (w.endConnect r ok) := by
  have hended : Sound (w.setStage r .finished) := h.leave rfl
  have hwrites : ∀ s k W, (w.endConnect r ok).MayWrite s k W → (w.setStage r .finished).MayWrite s k W := by
    rintro s k W ⟨hstale, hW, site, hcopy, hid⟩
    rcases requests_endConnect w r ok s with hsame | ⟨-, -, hnew⟩
    · rw [hsame] at hstale hW hcopy
      exact ⟨hstale, hW, site, hcopy, hid⟩
    · rw [hnew] at hcopy
      cases ok <;> cases hcopy
  obtain ⟨requests, connectsInFlight, hframe⟩ := endConnect_frame w r ok
  rw [hframe] at hwrites ⊢
  exact Leases.Kept.mono hended (fun k P hP => .inl hP) fun s k W hW => .inr ⟨s, W, hwrites s k W hW, subset_rfl⟩

/-- A request that reads a record holds a fresh copy. -/
theorem Sound.hold (h : Sound w) {origin : String} {stage : Stage}
    (hfind : w.findConnectedSite origin = some site) (hstage : stage.copy = some site) :
    Sound (w.hold r stage) :=
  h.setRequest fun other hother => by
    obtain rfl := Option.some.inj (hstage.symm.trans hother)
    exact .inl ⟨Keyed.mem_of_find hfind, rfl⟩

theorem Sound.lookAgain (h : Sound w) {autoApproved : Bool} :
    Sound (w.lookAgain r p autoApproved) := by
  simp only [BridgeState.lookAgain]
  split
  · next stored hfind => exact h.hold hfind rfl
  · exact h.leave rfl

theorem Sound.lookUp (h : Sound w) {method : Method} : Sound (w.lookUp wallet r method) := by
  simp only [BridgeState.lookUp]
  split
  · split
    · exact h.connectAnew
    · exact h.leave rfl
  · next site hfind =>
    split
    · split
      · exact h.leave rfl
      · exact h.hold hfind rfl
    · exact h.leave rfl
    · exact h.hold hfind rfl
    · split
      · exact h.leave rfl
      · exact h.leave rfl

theorem Sound.drop (h : Sound w) (hn : Numbered w) {method : Method} :
    Sound (w.drop r method site) := by
  simp only [BridgeState.drop]
  split
  · exact (h.delete hn site.id).connectAnew
  · exact (h.delete hn site.id).leave rfl

/-! ### Runs -/

/-- **A step** that writes no stale copy back keeps what the user took back. -/
theorem Sound.step (h : Sound w) (hn : Numbered w) {a : Act} (ha : FreshWrite w a)
    (hstep : step wallet w a = some w') : Sound w' := by
  have hcopied : ∀ {r stage site}, (w.requests r).stage = stage → stage.copy = some site →
      (w.requests r).stage.copy = some site := fun hstage hsite => hstage ▸ hsite
  cases moves_of_step hstep with
  | arrive hstage horigin hstageNew => exact h.leave (congrArg Stage.copy hstageNew)
  | lookUp hstage => exact h.lookUp
  | readCurrent hstage => exact h.readCurrent
  | touchFound hstage =>
    exact h.touchLastUsed (hcopied hstage rfl) ha (.inr rfl)
  | touchStored hstage => exact h.touchLastUsed (hcopied hstage rfl) ha (.inl rfl)
  | ask hstage => exact h.ask (hcopied hstage rfl)
  | useCache hstage => exact h.useCache (hcopied hstage rfl)
  | approve hstage => exact h.approve hstage _
  | recheck hstage => exact h.assertGrantStillHeld (hcopied hstage rfl)
  | sign hstage => exact h.sign (hcopied hstage rfl)
  | save hstage hsave => exact h.updateSitePermissions (hcopied hstage rfl) ha hsave
  | drop hstage => exact h.drop hn
  | grant hstage => exact h.leave rfl
  | lookAgain hstage => exact h.lookAgain
  | store hstage => exact h.store hn
  | answerConnect hstage =>
    refine Sound.endConnect (h.leave ?_) true
    exact congrArg Stage.copy hstage
  | refuse hstage =>
    rcases hstage with hstage | hstage | hstage | hstage
    · exact h.next (hcopied hstage rfl)
    · exact h.next (hcopied hstage rfl)
    · exact h.next (hcopied hstage rfl)
    · exact h.next (hcopied hstage rfl)
  | fail hidle hfinished => exact h.endConnect false
  | delete => exact h.delete hn _
  | edit hsite hid => exact h.edit hn hsite _
  | startRemoval hstage hsite =>
    exact h.setRequest fun other hother => .inl ⟨Option.some.inj hother ▸ hsite, rfl⟩
  | removeAccounts hstage => exact h.removeAccounts hn hstage ha
  | setAutoApprove => exact h

/-- **What the user took back stays taken back.** In a run that writes no stale copy back, no deleted record
is ever stored again, and no record grants what was taken back and not given again. -/
theorem respected_of_run {saved : Saved} {autoApprove : String → Bool} {as : List Act}
    (hguard : Transition.Under FreshWrite (step wallet) (start saved autoApprove) as)
    (hrun : run (step wallet) (start saved autoApprove) as = some w) : Respected w :=
  (run_invariant_of_under (I := fun w => Sound w ∧ Numbered w)
    (fun _ _ _ h ha hstep => ⟨h.1.step h.2 ha hstep, h.2.step hstep⟩)
    ⟨sound_start saved autoApprove, numbered_start saved autoApprove⟩ hguard hrun).1.respected

/-- A signature is asked for, and allowed for good. -/
private def allowedForGood : List Act :=
  [.arrive 0 "https://dapp" (.signMessage "btc" "bc1q"), .lookUp 0, .touch 0 1, .ask 0,
    .approve 0 ⟨true, "", ""⟩]

/-- The permission is kept, and the user narrows the grant before the next request. -/
private def narrowedBetween : List Act :=
  allowedForGood ++ [.recheck 0, .sign 0, .save 0 2, .edit 0 ⟨["ltc"], ["main"], true, fun _ => none⟩,
    .arrive 1 "https://dapp" (.signMessage "ltc" "ltc1q"), .lookUp 1, .touch 1 3]

private theorem isSome_narrowedBetween :
    (run (step oneAddress) (start oneSite fun _ => false) narrowedBetween).isSome := by
  decide

theorem respected_narrowedBetween :
    Respected ((run (step oneAddress) (start oneSite fun _ => false) narrowedBetween).get
      isSome_narrowedBetween) := by
  have hguard : Transition.Under FreshWrite (step oneAddress) (start oneSite fun _ => false)
      narrowedBetween := by
    refine .cons trivial rfl (.cons trivial rfl (.cons not_false rfl (.cons trivial rfl ?_)))
    refine .cons trivial rfl (.cons trivial rfl (.cons trivial rfl (.cons not_false rfl ?_)))
    exact .cons trivial rfl (.cons trivial rfl (.cons trivial rfl (.cons not_false rfl trivial)))
  exact respected_of_run hguard (Option.some_get _).symm

/-- A signing request reads the record, the user revokes the site, and the time of the last use is written. -/
private def revokedBeforeTouch : List Act :=
  [.arrive 0 "https://dapp" (.signMessage "btc" "bc1q"), .lookUp 0, .delete 0, .touch 0 1]

/-- The user takes a chain out of the grant during the prompt, and the permission that is kept brings it back. -/
private def narrowedBeforeSave : List Act :=
  allowedForGood ++ [.edit 0 ⟨["ltc"], ["main"], false, fun _ => none⟩, .recheck 0, .sign 0, .save 0 2]

theorem not_respected_of_run :
    (¬∀ (wallet : Wallet) (saved : Saved) (autoApprove : String → Bool) (as : List Act) (w : BridgeState),
      run (step wallet) (start saved autoApprove) as = some w →
        ∀ site ∈ w.sites, ¬w.deleted site.id) ∧
    ¬∀ (wallet : Wallet) (saved : Saved) (autoApprove : String → Bool) (as : List Act) (w : BridgeState),
      run (step wallet) (start saved autoApprove) as = some w →
        ∀ site ∈ w.sites, ∀ g, w.taken site.id g → ¬site.permissions.Grants g := by
  refine ⟨fun h => ?_, fun h => ?_⟩
  · have hrun := h oneAddress oneSite (fun _ => false) revokedBeforeTouch _ rfl
    exact hrun _ (List.mem_singleton_self _) (.inl ⟨rfl, _, List.mem_singleton_self _, rfl⟩)
  · have hrun := h oneAddress oneSite (fun _ => false) narrowedBeforeSave _ rfl
    refine hrun _ (List.mem_singleton_self _) (.chain "btc") ⟨.inr ⟨rfl, ?_, ?_⟩, ?_⟩
      (.inr (List.mem_singleton_self _))
    · exact ⟨_, List.mem_singleton_self _, rfl, .inr (List.mem_singleton_self _)⟩
    · decide
    · rintro ⟨-, h⟩
      revert h
      decide

end XchainWallet.Bridge
