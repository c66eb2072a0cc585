import XchainWallet.Bridge.Numbered

/-!
# One record for an origin

Runs in which only `connect` acts, from any number of origins and tabs. No origin has two records in any state
of such a run, and a connect that ends without its answer, before a write of its own, has left the records as
they were, but for one that was approved automatically while the setting for it is off now
(`connects_of_run`). That record is dropped before the user is asked.

The map of connects in flight keeps two tabs of an origin from storing a record each. A copy that `connect`
holds is told from the record under its id by nothing but the time of the last use, so the records are seen
here through their `entry`.
-/

namespace XchainWallet.Bridge

open Function Transition

variable {wallet : Wallet} {w w' : BridgeState} {r : ℕ}

/-- The connect that takes the step. -/
def Act.ofConnect : Act → Option ℕ
  | .arrive r _ .connect | .lookUp r | .touch r _ | .drop r | .grant r _ _ | .lookAgain r | .store r _
  | .answerConnect r | .fail r => some r
  | _ => none

/-- The connect ends here, without its answer and before a write of its own. -/
def Fails (w w' : BridgeState) (r : ℕ) : Prop :=
  (w.requests r).stage ≠ .finished ∧ (∀ p, (w.requests r).stage ≠ .listing p) ∧
    (w'.requests r).stage = .finished

/-- All records stay, but for those of the origin that were approved automatically while the setting is off. -/
def Keeps (w : BridgeState) (origin : String) (sites : List ConnectedSite) : Prop :=
  sites.Sublist w.sites ∧ ∀ site ∈ w.sites, site ∉ sites →
    site.origin = origin ∧ site.autoApproved = true ∧ w.autoApprove origin = false

/-! ### Entries -/

/-- What `connect` never changes of a record. -/
structure Entry where
  id : ℕ
  origin : String
  autoApproved : Bool

def ConnectedSite.entry (site : ConnectedSite) : Entry := ⟨site.id, site.origin, site.autoApproved⟩

/-- The setting allows the record. -/
def Entry.Stays (autoApprove : String → Bool) (e : Entry) : Prop :=
  e.autoApproved = true → autoApprove e.origin = true

def BridgeState.entries (w : BridgeState) : List Entry := w.sites.map ConnectedSite.entry

theorem Numbered.entry_eq (h : Numbered w) {a b : Entry} (ha : a ∈ w.entries) (hb : b ∈ w.entries)
    (hid : a.id = b.id) : a = b := by
  obtain ⟨siteA, hsiteA, rfl⟩ := List.mem_map.mp ha
  obtain ⟨siteB, hsiteB, rfl⟩ := List.mem_map.mp hb
  rw [h.eq_of_id hsiteA hsiteB hid]

variable {site : ConnectedSite}

theorem entry_mem_of_find {origin : String} (h : w.findConnectedSite origin = some site) :
    site.entry ∈ w.entries :=
  List.mem_map_of_mem (Keyed.mem_of_find h)

variable {lastUsedAt : ℕ}

/-- The time of the last use is no part of an entry. -/
theorem entries_put (hn : Numbered w) (h : site.entry ∈ w.entries) :
    (w.put { site with lastUsedAt := lastUsedAt }).entries = w.entries := by
  obtain ⟨stored, hstored, hentry⟩ := List.mem_map.mp h
  have hid : stored.id = site.id := congrArg Entry.id hentry
  exact Keyed.map_upsert ((Keyed.find_eq_some hn.distinct).mpr ⟨hstored, hid⟩) hentry.symm

theorem mem_entries_delete (hn : Numbered w) {id : ℕ} {e : Entry} :
    e ∈ (w.delete id).entries ↔ e ∈ w.entries ∧ e.id ≠ id := by
  constructor
  · rintro h
    obtain ⟨site, hsite, rfl⟩ := List.mem_map.mp h
    have hnone := Keyed.find_erase_self (k := id) hn.distinct
    exact ⟨List.mem_map_of_mem (Keyed.mem_of_mem_erase hsite), Keyed.find_eq_none.mp hnone site hsite⟩
  · rintro ⟨h, hid⟩
    obtain ⟨site, hsite, rfl⟩ := List.mem_map.mp h
    rcases Keyed.mem_erase_or_find (k := id) hsite with hmem | hfind
    · exact List.mem_map_of_mem hmem
    · exact absurd (Keyed.key_of_find hfind) hid

variable {p : SitePermissions}

theorem entries_store (hn : Numbered w) {autoApproved : Bool} :
    (w.store r p autoApproved lastUsedAt).entries =
      w.entries ++ [⟨w.nextId, (w.requests r).origin, autoApproved⟩] := by
  set site : ConnectedSite := ⟨w.nextId, (w.requests r).origin, lastUsedAt, p, autoApproved⟩ with hsite
  have happend : Keyed.upsert ConnectedSite.id site w.sites = w.sites ++ [site] :=
    Keyed.upsert_eq_append fun other hother => Nat.ne_of_lt (hn.sites other hother)
  calc
    (w.store r p autoApproved lastUsedAt).entries
        = (Keyed.upsert ConnectedSite.id site w.sites).map ConnectedSite.entry := rfl
    _ = w.entries ++ [⟨w.nextId, (w.requests r).origin, autoApproved⟩] := by
        rw [happend, List.map_append]
        rfl

/-! ### Requests of connect -/

/-- What holds of a request that is not in its first stages, and of what it saw. -/
def Fits (w : BridgeState) (r : ℕ) (q : Request) : Prop :=
  match q.stage with
  | .idle | .arrived .connect | .waiting _ | .listing _ | .finished => True
  | .touching site => site.entry ∈ w.entries ∧ site.entry.Stays w.autoApprove
  | .dropping .connect site =>
    site.id < w.nextId ∧ site.origin = q.origin ∧ ¬site.entry.Stays w.autoApprove ∧
      ∀ e ∈ w.entries, (e.id = site.id → e = site.entry) ∧
        (e.origin = q.origin → e.id = site.id ∨ e.Stays w.autoApprove)
  | .connecting =>
    w.connectsInFlight q.origin = some r ∧ ∀ e ∈ w.entries, e.origin = q.origin → e.Stays w.autoApprove
  | .granting _ autoApproved =>
    w.connectsInFlight q.origin = some r ∧ (∀ e ∈ w.entries, e.origin = q.origin → e.Stays w.autoApprove) ∧
      (autoApproved = true → w.autoApprove q.origin = true)
  | .storing _ autoApproved =>
    w.connectsInFlight q.origin = some r ∧ (∀ e ∈ w.entries, e.origin ≠ q.origin) ∧
      (autoApproved = true → w.autoApprove q.origin = true)
  | _ => False

structure Once (w : BridgeState) : Prop where
  single : (w.entries.map Entry.origin).Nodup
  fits : ∀ r, Fits w r (w.requests r)

theorem Once.origins (h : Once w) : (w.sites.map ConnectedSite.origin).Nodup := by
  have hmap : w.entries.map Entry.origin = w.sites.map ConnectedSite.origin := List.map_map
  exact hmap ▸ h.single

/-- A record is the only one of its origin. -/
theorem Once.eq_of_origin (h : Once w) {a b : Entry} (ha : a ∈ w.entries) (hb : b ∈ w.entries)
    (horigin : a.origin = b.origin) : a = b :=
  List.inj_on_of_nodup_map h.single ha hb horigin

theorem Once.setRequest (h : Once w) {q : Request} (hq : Fits w r q) : Once (w.setRequest r q) where
  single := h.single
  fits := fun s => by
    rcases eq_or_ne s r with rfl | hsr
    · simp only [BridgeState.setRequest, update_self]
      exact hq
    · simp only [BridgeState.setRequest, update_of_ne hsr]
      exact h.fits s

/-- What others do: no record goes that the setting allows, and none comes that it does not allow or that is
of an origin of which this request is the connect in flight. -/
theorem Fits.frame {q : Request} (h : Fits w r q)
    (hflight : w.connectsInFlight q.origin = some r → w'.connectsInFlight q.origin = some r)
    (hnext : w.nextId ≤ w'.nextId) (hauto : w'.autoApprove = w.autoApprove)
    (hgone : ∀ e ∈ w.entries, e.Stays w.autoApprove → e ∈ w'.entries)
    (hnew : ∀ e ∈ w'.entries, e ∈ w.entries ∨
      w.nextId ≤ e.id ∧ e.Stays w.autoApprove ∧ w.connectsInFlight e.origin ≠ some r) : Fits w' r q := by
  have hasked : (∀ e ∈ w.entries, e.origin = q.origin → e.Stays w.autoApprove) →
      ∀ e ∈ w'.entries, e.origin = q.origin → e.Stays w.autoApprove := fun hold e he horigin =>
    (hnew e he).elim (fun he => hold e he horigin) fun hfresh => hfresh.2.1
  simp only [Fits] at h ⊢
  rw [hauto]
  split at h
  · exact h
  · exact h
  · exact h
  · exact h
  · exact h
  · exact ⟨hgone _ h.1 h.2, h.2⟩
  · obtain ⟨hid, horigin, hstays, hagrees⟩ := h
    refine ⟨Nat.lt_of_lt_of_le hid hnext, horigin, hstays, fun e he => ?_⟩
    rcases hnew e he with he | ⟨hfresh, hallowed, -⟩
    · exact hagrees e he
    · exact ⟨fun heq => absurd (heq ▸ hfresh) (Nat.not_le.mpr hid), fun _ => .inr hallowed⟩
  · exact ⟨hflight h.1, hasked h.2⟩
  · exact ⟨hflight h.1, hasked h.2.1, h.2.2⟩
  · refine ⟨hflight h.1, fun e he horigin => ?_, h.2.2⟩
    rcases hnew e he with he | ⟨-, -, hother⟩
    · exact h.2.1 e he horigin
    · exact hother (horigin ▸ h.1)
  · exact h

/-! ### Steps -/

/-- A connect with no record asks, unless another tab of its origin does. -/
theorem Once.connectAnew (h : Once w)
    (hasked : ∀ e ∈ w.entries, e.origin = (w.requests r).origin → e.Stays w.autoApprove) :
    Once (w.connectAnew r) := by
  simp only [BridgeState.connectAnew]
  split
  · exact h.setRequest trivial
  · next hnone =>
    refine ⟨h.single, fun s => ?_⟩
    rcases eq_or_ne s r with rfl | hsr
    · simp only [BridgeState.setStage, BridgeState.setRequest, update_self, Fits]
      exact ⟨trivial, hasked⟩
    · simp only [BridgeState.setStage, BridgeState.setRequest, update_of_ne hsr]
      refine (h.fits s).frame (fun hflight => ?_) (Nat.le_refl _) rfl (fun _ he _ => he) fun _ he => .inl he
      have hne : (w.requests s).origin ≠ (w.requests r).origin := fun horigin => by
        rw [horigin, hnone] at hflight
        cases hflight
      exact (update_of_ne hne _ _).trans hflight

theorem Once.lookUp (h : Once w) (hn : Numbered w) : Once (w.lookUp wallet r .connect) := by
  simp only [BridgeState.lookUp]
  split
  · next hfind =>
    refine h.connectAnew fun e he horigin => ?_
    obtain ⟨site, hsite, rfl⟩ := List.mem_map.mp he
    exact absurd horigin (Keyed.find_eq_none.mp hfind site hsite)
  · next site hfind =>
    have hmem := entry_mem_of_find hfind
    have horigin : site.origin = (w.requests r).origin := Keyed.key_of_find hfind
    split
    · next hoff =>
      refine h.setRequest ⟨hn.sites site (Keyed.mem_of_find hfind), horigin, fun hstays => ?_, fun e he => ?_⟩
      · have hon : w.autoApprove site.origin = true := hstays hoff.1
        rw [horigin, hoff.2] at hon
        cases hon
      · exact ⟨hn.entry_eq he hmem, fun hsame =>
          .inl (congrArg Entry.id (h.eq_of_origin he hmem (hsame.trans horigin.symm)))⟩
    · next hon =>
      refine h.setRequest ⟨hmem, fun hauto => ?_⟩
      rw [show site.entry.origin = (w.requests r).origin from horigin]
      exact Bool.not_eq_false _ ▸ fun hoff => hon ⟨hauto, hoff⟩

/-- The record that `connect` drops is the one that it saw, which the setting does not allow. -/
theorem Once.delete (h : Once w) (hn : Numbered w)
    (hstage : (w.requests r).stage = .dropping .connect site) : Once (w.delete site.id) := by
  have hfits := h.fits r
  simp only [Fits, hstage] at hfits
  obtain ⟨-, -, hstays, hagrees⟩ := hfits
  have hsub : ((w.delete site.id).entries).Sublist w.entries :=
    (List.eraseP_sublist (p := fun a => decide (ConnectedSite.id a = site.id))).map ConnectedSite.entry
  refine ⟨h.single.sublist (hsub.map Entry.origin), fun s => ?_⟩
  have hkept : Fits (w.delete site.id) s (w.requests s) :=
    (h.fits s).frame id (Nat.le_refl _) rfl
      (fun e he hallowed => (mem_entries_delete hn).mpr ⟨he, fun hid => hstays ((hagrees e he).1 hid ▸ hallowed)⟩)
      fun e he => .inl ((mem_entries_delete hn).mp he).1
  exact hkept

theorem Once.drop (h : Once w) (hn : Numbered w)
    (hstage : (w.requests r).stage = .dropping .connect site) : Once (w.drop r .connect site) := by
  have hfits := h.fits r
  simp only [Fits, hstage] at hfits
  obtain ⟨-, -, -, hagrees⟩ := hfits
  refine (h.delete hn hstage).connectAnew fun e he horigin => ?_
  obtain ⟨hmem, hid⟩ := (mem_entries_delete hn).mp he
  exact ((hagrees e hmem).2 horigin).resolve_left hid

/-- The time of the last use is written into the record that `connect` saw. -/
theorem Once.touch (h : Once w) (hn : Numbered w) (hstage : (w.requests r).stage = .touching site) :
    Once (w.touchLastUsed r site lastUsedAt (.listing site.permissions)) := by
  have hfits := h.fits r
  simp only [Fits, hstage] at hfits
  have hentries : (w.put { site with lastUsedAt := lastUsedAt }).entries = w.entries := entries_put hn hfits.1
  have hput : Once (w.put { site with lastUsedAt := lastUsedAt }) := by
    refine ⟨by rw [hentries]; exact h.single, fun s => ?_⟩
    refine (h.fits s).frame id (Nat.le_refl _) rfl (fun e he _ => ?_) fun e he => .inl ?_
    · rw [hentries]
      exact he
    · rw [hentries] at he
      exact he
  exact hput.setRequest trivial

theorem Once.grant (h : Once w) {auto : Bool} (hstage : (w.requests r).stage = .connecting) :
    Once (w.grant wallet r p auto) := by
  have hfits := h.fits r
  simp only [Fits, hstage] at hfits
  exact h.setRequest ⟨hfits.1, hfits.2, fun hauto => (Bool.and_eq_true_iff.mp hauto).2⟩

/-- The second lookup: a record that is there stays, and where there is none, none comes before the write. -/
theorem Once.lookAgain (h : Once w) {autoApproved : Bool}
    (hstage : (w.requests r).stage = .granting p autoApproved) :
    Once (w.lookAgain r p autoApproved) := by
  have hfits := h.fits r
  simp only [Fits, hstage] at hfits
  obtain ⟨hflight, hasked, hauto⟩ := hfits
  simp only [BridgeState.lookAgain]
  split
  · next stored hfind =>
    have hmem := entry_mem_of_find hfind
    have horigin : stored.origin = (w.requests r).origin := Keyed.key_of_find hfind
    exact h.setRequest ⟨hmem, hasked _ hmem horigin⟩
  · next hfind =>
    refine h.setRequest ⟨hflight, fun e he => ?_, hauto⟩
    obtain ⟨site, hsite, rfl⟩ := List.mem_map.mp he
    exact Keyed.find_eq_none.mp hfind site hsite

/-- **The write.** No record of the origin is stored, and the connects of other tabs are not at theirs. -/
theorem Once.store (h : Once w) (hn : Numbered w) {autoApproved : Bool}
    (hstage : (w.requests r).stage = .storing p autoApproved) :
    Once (w.store r p autoApproved lastUsedAt) := by
  have hfits := h.fits r
  simp only [Fits, hstage] at hfits
  obtain ⟨hflight, hnone, hauto⟩ := hfits
  have hentries : (w.store r p autoApproved lastUsedAt).entries =
      w.entries ++ [⟨w.nextId, (w.requests r).origin, autoApproved⟩] := entries_store hn
  refine ⟨?_, fun s => ?_⟩
  · rw [hentries, List.map_append, List.map_cons, List.map_nil]
    refine List.nodup_append.mpr ⟨h.single, List.nodup_singleton _, fun origin horigin other hother => ?_⟩
    obtain ⟨e, he, rfl⟩ := List.mem_map.mp horigin
    rw [List.mem_singleton.mp hother]
    exact hnone e he
  · rcases eq_or_ne s r with rfl | hsr
    · simp only [BridgeState.store, BridgeState.setStage, BridgeState.setRequest, update_self, Fits]
    · simp only [BridgeState.store, BridgeState.setStage, BridgeState.setRequest, update_of_ne hsr]
      refine (h.fits s).frame id (Nat.le_succ _) rfl (fun e he _ => ?_) fun e he => ?_
      · exact hentries ▸ List.mem_append_left _ he
      · have he : e ∈ w.entries ++ [⟨w.nextId, (w.requests r).origin, autoApproved⟩] := hentries ▸ he
        rcases List.mem_append.mp he with he | he
        · exact .inl he
        · obtain rfl := List.mem_singleton.mp he
          refine .inr ⟨Nat.le_refl _, hauto, fun hother => hsr ?_⟩
          exact Option.some.inj (hother.symm.trans hflight)

/-- A connect ends, and the tabs behind it begin again or end with it. -/
theorem Once.endConnect (h : Once w) (ok : Bool) : Once (w.endConnect r ok) := by
  have hended : Once (w.setStage r .finished) := h.setRequest trivial
  have hframed : ∀ s ≠ r, Fits (w.endConnect r ok) s (w.requests s) := by
    intro s hsr
    have hflight : ∀ origin, w.connectsInFlight origin = some s →
        (w.endConnect r ok).connectsInFlight origin = some s := fun _ => connectsInFlight_endConnect hsr
    obtain ⟨requests, connectsInFlight, hframe⟩ := endConnect_frame w r ok
    rw [hframe] at hflight ⊢
    exact (h.fits s).frame (hflight _) (Nat.le_refl _) rfl (fun _ he _ => he) fun _ he => .inl he
  have hfits : ∀ s, Fits (w.endConnect r ok) s ((w.endConnect r ok).requests s) := by
    intro s
    rcases requests_endConnect w r ok s with hsame | ⟨-, -, hnew⟩
    · rw [hsame]
      rcases eq_or_ne s r with rfl | hsr
      · simp only [BridgeState.setStage, BridgeState.setRequest, update_self, Fits]
      · simp only [BridgeState.setStage, BridgeState.setRequest, update_of_ne hsr]
        exact hframed s hsr
    · rw [hnew]
      cases ok with
      | true | false => trivial
  refine ⟨?_, hfits⟩
  obtain ⟨requests, connectsInFlight, hframe⟩ := endConnect_frame w r ok
  rw [hframe]
  exact h.single

/-! ### Runs -/

theorem once_start (saved : Saved) (autoApprove : String → Bool) : Once (start saved autoApprove) where
  single := by
    rw [BridgeState.entries, List.map_map]
    exact saved.single
  fits := fun _ => trivial

/-- **A step of a connect** keeps every origin at one record. -/
theorem Once.step (h : Once w) (hn : Numbered w) {a : Act} (ha : a.ofConnect = some r)
    (hstep : step wallet w a = some w') : Once w' := by
  cases moves_of_step hstep with
  | @arrive _ _ method q hstage horigin hstageNew =>
    refine h.setRequest ?_
    cases method with
    | connect => simp only [Fits, hstageNew]
    | _ => cases ha
  | @lookUp s method hstage =>
    have hfits := h.fits s
    simp only [Fits, hstage] at hfits
    cases method with
    | connect => exact h.lookUp hn
    | _ => exact hfits.elim
  | @touchFound s _ _ hstage =>
    have hfits := h.fits s
    simp only [Fits, hstage] at hfits
  | touchStored hstage => exact h.touch hn hstage
  | @drop s method _ hstage =>
    have hfits := h.fits s
    simp only [Fits, hstage] at hfits
    cases method with
    | connect => exact h.drop hn hstage
    | _ => exact hfits.elim
  | grant hstage => exact h.grant hstage
  | lookAgain hstage => exact h.lookAgain hstage
  | store hstage => exact h.store hn hstage
  | @answerConnect s p hstage =>
    refine Once.endConnect (h.setRequest ?_) true
    simp only [Fits, hstage]
  | fail hidle hfinished => exact h.endConnect false
  | _ => cases ha

theorem sites_endConnect {ok : Bool} : (w.endConnect r ok).sites = w.sites := by
  obtain ⟨requests, connectsInFlight, hframe⟩ := endConnect_frame w r ok
  rw [hframe]

theorem connectAnew_eq (w : BridgeState) (r : ℕ) : (w.connectAnew r).sites = w.sites ∧
    ∃ stage, stage ≠ .finished ∧
      (w.connectAnew r).requests = update w.requests r { w.requests r with stage := stage } := by
  simp only [BridgeState.connectAnew]
  split
  · next tab _ => exact ⟨rfl, .waiting tab, by simp, rfl⟩
  · exact ⟨rfl, .connecting, by simp, rfl⟩

theorem lookUp_eq (wallet : Wallet) (w : BridgeState) (r : ℕ) : (w.lookUp wallet r .connect).sites = w.sites ∧
    ∃ q, (w.lookUp wallet r .connect).requests = update w.requests r q := by
  simp only [BridgeState.lookUp]
  split
  · obtain ⟨hsites, stage, -, hrequests⟩ := connectAnew_eq w r
    exact ⟨hsites, _, hrequests⟩
  · split
    · exact ⟨rfl, _, rfl⟩
    · exact ⟨rfl, _, rfl⟩

theorem lookAgain_eq (w : BridgeState) (r : ℕ) (p : SitePermissions) (autoApproved : Bool) :
    (w.lookAgain r p autoApproved).sites = w.sites ∧
      ∃ q, (w.lookAgain r p autoApproved).requests = update w.requests r q := by
  simp only [BridgeState.lookAgain]
  split
  · exact ⟨rfl, _, rfl⟩
  · exact ⟨rfl, _, rfl⟩

/-- **What a step of a connect writes**: nothing, or its own record, after which it stands before its answer, or
nothing but the drop of the record that it saw. -/
theorem Once.writes (h : Once w) {a : Act} (ha : a.ofConnect = some r) (hstep : Bridge.step wallet w a = some w') :
    w'.sites = w.sites ∨ (∀ s ≠ r, (w'.requests s).stage = (w.requests s).stage) ∧
      ((∃ p, (w'.requests r).stage = .listing p) ∨
        ∃ site, (w.requests r).stage = .dropping .connect site ∧
          w'.sites = Keyed.erase ConnectedSite.id site.id w.sites ∧ (w'.requests r).stage ≠ .finished) := by
  have hothers : ∀ (q : Request), ∀ s ≠ r, (update w.requests r q s).stage = (w.requests s).stage :=
    fun q s hsr => by rw [update_of_ne hsr]
  have hlisting : ∀ (requests : ℕ → Request) (q : Request) (p : SitePermissions), q.stage = .listing p →
      (update requests r q r).stage = .listing p := fun _ _ _ hq => by rw [update_self, hq]
  cases moves_of_step hstep with
  | arrive => exact .inl rfl
  | @lookUp s method hstage =>
    obtain rfl := Option.some.inj ha
    have hfits := h.fits s
    simp only [Fits, hstage] at hfits
    cases method with
    | connect => exact .inl (lookUp_eq wallet w s).1
    | _ => exact hfits.elim
  | @touchFound s _ _ hstage =>
    have hfits := h.fits s
    simp only [Fits, hstage] at hfits
  | touchStored hstage | store =>
    obtain ⟨⟩ := ha
    exact .inr ⟨hothers _, .inl ⟨_, hlisting _ _ _ rfl⟩⟩
  | @drop s method site hstage =>
    obtain rfl := Option.some.inj ha
    have hfits := h.fits s
    simp only [Fits, hstage] at hfits
    cases method with
    | connect =>
      obtain ⟨hsites, stage, hne, hrequests⟩ := connectAnew_eq (w.delete site.id) s
      have hrequests : (w.drop s .connect site).requests = _ := hrequests
      refine .inr ⟨fun t hts => ?_, .inr ⟨site, hstage, hsites, ?_⟩⟩
      · rw [hrequests, update_of_ne hts]
        rfl
      · rw [hrequests, update_self]
        exact hne
    | _ => exact hfits.elim
  | grant => exact .inl rfl
  | lookAgain => exact .inl (lookAgain_eq w _ _ _).1
  | answerConnect | fail => exact .inl sites_endConnect
  | _ => cases ha

/-- The step of another connect leaves a request at its stage, unless it waits for that connect. -/
theorem Once.stage_of_ne (h : Once w) {a : Act} {s : ℕ} (ha : a.ofConnect = some s)
    (hstep : Bridge.step wallet w a = some w') (hrs : r ≠ s) :
    (w'.requests r).stage = (w.requests r).stage ∨ (w.requests r).stage = .waiting s := by
  have hupdate : ∀ {requests : ℕ → Request} {q : Request}, requests = update w.requests s q →
      (requests r).stage = (w.requests r).stage := fun heq => by
    rw [heq, update_of_ne hrs]
  have hend : ∀ {u : BridgeState} {ok : Bool}, (u.requests r).stage = (w.requests r).stage →
      ((u.endConnect s ok).requests r).stage = (w.requests r).stage ∨ (w.requests r).stage = .waiting s := by
    intro u ok hu
    rcases requests_endConnect u s ok r with hsame | ⟨hwaiting, -, -⟩
    · rw [hsame]
      simp only [BridgeState.setStage, BridgeState.setRequest, update_of_ne hrs]
      exact .inl hu
    · exact .inr (hu.symm.trans hwaiting)
  cases moves_of_step hstep with
  | @arrive _ _ method _ hstage =>
    cases method with
    | connect =>
      obtain ⟨⟩ := ha
      exact .inl (hupdate rfl)
    | _ => cases ha
  | @lookUp t method hstage =>
    obtain rfl := Option.some.inj ha
    have hfits := h.fits t
    simp only [Fits, hstage] at hfits
    cases method with
    | connect =>
      obtain ⟨-, q, hrequests⟩ := lookUp_eq wallet w t
      exact .inl (hupdate hrequests)
    | _ => exact hfits.elim
  | @touchFound t _ _ hstage =>
    have hfits := h.fits t
    simp only [Fits, hstage] at hfits
  | touchStored hstage | grant | store =>
    obtain ⟨⟩ := ha
    exact .inl (hupdate rfl)
  | @drop t method site hstage =>
    obtain rfl := Option.some.inj ha
    have hfits := h.fits t
    simp only [Fits, hstage] at hfits
    cases method with
    | connect =>
      obtain ⟨-, stage, -, hrequests⟩ := connectAnew_eq (w.delete site.id) t
      refine .inl ?_
      rw [show (w.drop t .connect site).requests = _ from hrequests, update_of_ne hrs]
      rfl
    | _ => exact hfits.elim
  | @lookAgain t p autoApproved hstage =>
    obtain rfl := Option.some.inj ha
    obtain ⟨-, q, hrequests⟩ := lookAgain_eq w t p autoApproved
    exact .inl (hupdate hrequests)
  | answerConnect =>
    obtain ⟨⟩ := ha
    exact hend (hupdate rfl)
  | fail =>
    obtain ⟨⟩ := ha
    exact hend rfl
  | _ => cases ha

/-- A connect that has written ends without another write. -/
theorem Once.done_of_step (h : Once w) {a : Act} {s : ℕ} (ha : a.ofConnect = some s)
    (hdone : (∃ p, (w.requests r).stage = .listing p) ∨ (w.requests r).stage = .finished)
    (hstep : Bridge.step wallet w a = some w') :
    (∃ p, (w'.requests r).stage = .listing p) ∨ (w'.requests r).stage = .finished := by
  have hother : ∀ {stage : Stage}, (w.requests r).stage = stage → (∀ p, stage ≠ .listing p) →
      stage ≠ .finished → False := by
    rintro stage rfl hlisting hfinished
    rcases hdone with ⟨p, hp⟩ | hp
    · exact hlisting p hp
    · exact hfinished hp
  have hend : ∀ {u : BridgeState} {ok : Bool}, ((u.endConnect r ok).requests r).stage = .finished := by
    intro u ok
    rcases requests_endConnect u r ok r with hsame | ⟨-, hne, -⟩
    · rw [hsame]
      simp only [BridgeState.setStage, BridgeState.setRequest, update_self]
    · exact absurd rfl hne
  rcases eq_or_ne r s with rfl | hrs
  · cases moves_of_step hstep with
    | @arrive _ _ method _ hstage =>
      cases method with
      | connect =>
        obtain ⟨⟩ := ha
        exact (hother hstage (by simp) (by simp)).elim
      | _ => cases ha
    | lookUp hstage | touchFound hstage | touchStored hstage | drop hstage | grant hstage | lookAgain hstage
    | store hstage =>
      obtain ⟨⟩ := ha
      exact (hother hstage (by simp) (by simp)).elim
    | answerConnect | fail =>
      obtain ⟨⟩ := ha
      exact .inr hend
    | _ => cases ha
  · rcases h.stage_of_ne ha hstep hrs with hsame | hwaiting
    · rw [hsame]
      exact hdone
    · rcases hdone with ⟨p, hlisting⟩ | hfinished
      · rw [hlisting] at hwaiting
        cases hwaiting
      · rw [hfinished] at hwaiting
        cases hwaiting

/-- The state of a run in which only connects act. -/
theorem once_of_run {u : BridgeState} {as : List Act} (h : Once u ∧ Numbered u)
    (hconnects : ∀ a ∈ as, a.ofConnect.isSome) (hrun : run (step wallet) u as = some w) :
    Once w ∧ Numbered w :=
  run_invariant_of_under (I := fun w => Once w ∧ Numbered w) (G := fun _ a => a.ofConnect.isSome)
    (fun _ _ _ h ha hstep => by
      obtain ⟨r, hr⟩ := Option.isSome_iff_exists.mp ha
      exact ⟨h.1.step h.2 hr hstep, h.2.step hstep⟩)
    h (under_of_forall_mem hconnects) hrun

/-- A connect that has written does not come back to a stage before its answer. -/
theorem done_of_run {u : BridgeState} {as : List Act} (h : Once u ∧ Numbered u)
    (hconnects : ∀ a ∈ as, a.ofConnect.isSome)
    (hdone : (∃ p, (u.requests r).stage = .listing p) ∨ (u.requests r).stage = .finished)
    (hrun : run (step wallet) u as = some w) :
    (∃ p, (w.requests r).stage = .listing p) ∨ (w.requests r).stage = .finished := by
  induction as generalizing u with
  | nil => exact Option.some.inj hrun ▸ hdone
  | cons a as ih =>
    obtain ⟨t, ht, hrest⟩ := run_cons_eq_some.mp hrun
    obtain ⟨s, hs⟩ := Option.isSome_iff_exists.mp (hconnects a (.head _))
    exact ih ⟨h.1.step h.2 hs ht, h.2.step ht⟩ (fun b hb => hconnects b (.tail a hb))
      (h.1.done_of_step hs hdone ht) hrest

/-- What `connect` drops was approved automatically, and the setting is off. -/
theorem Once.keeps_erase (h : Once w) (hstage : (w.requests r).stage = .dropping .connect site) :
    Keeps w (w.requests r).origin (Keyed.erase ConnectedSite.id site.id w.sites) := by
  have hfits := h.fits r
  simp only [Fits, hstage] at hfits
  obtain ⟨-, horigin, hstays, hagrees⟩ := hfits
  refine ⟨List.eraseP_sublist, fun stored hstored hgone => ?_⟩
  have hid : stored.id = site.id :=
    Keyed.key_of_find ((Keyed.mem_erase_or_find hstored).resolve_left hgone)
  have hentry : stored.entry = site.entry := (hagrees _ (List.mem_map_of_mem hstored)).1 hid
  obtain ⟨hauto, hoff⟩ := Classical.not_imp.mp hstays
  refine ⟨(congrArg Entry.origin hentry).trans horigin, (congrArg Entry.autoApproved hentry).trans hauto, ?_⟩
  rw [← horigin]
  exact Bool.eq_false_iff.mpr hoff

/-- **One record for an origin.** In every run of connects no origin has two records, and each step that a
connect took which ends without an answer, before a write of its own, kept all records but one that the
setting does not allow any more. -/
theorem connects_of_run {saved : Saved} {autoApprove : String → Bool} {as : List Act}
    (hconnects : ∀ a ∈ as, a.ofConnect.isSome)
    (hrun : run (step wallet) (start saved autoApprove) as = some w) :
    (w.sites.map ConnectedSite.origin).Nodup ∧
    ∀ a r w', a.ofConnect.isSome → step wallet w a = some w' → Fails w w' r → w'.sites = w.sites ∧
      ∀ before b after u u', as = before ++ b :: after → b.ofConnect = some r →
        run (step wallet) (start saved autoApprove) before = some u → step wallet u b = some u' →
          Keeps u (u.requests r).origin u'.sites := by
  have hstart : Once (start saved autoApprove) ∧ Numbered (start saved autoApprove) :=
    ⟨once_start saved autoApprove, numbered_start saved autoApprove⟩
  obtain ⟨honce, hnumbered⟩ := once_of_run hstart hconnects hrun
  refine ⟨honce.origins, fun a r w' ha hstep hfails => ⟨?_, ?_⟩⟩
  · obtain ⟨hunfinished, hunwritten, hfinished⟩ := hfails
    obtain ⟨s, hs⟩ := Option.isSome_iff_exists.mp ha
    rcases honce.writes hs hstep with hsame | ⟨hothers, hwrote⟩
    · exact hsame
    · rcases eq_or_ne r s with rfl | hrs
      · rcases hwrote with ⟨p, hlisting⟩ | ⟨site, -, -, hne⟩
        · rw [hlisting] at hfinished
          cases hfinished
        · exact absurd hfinished hne
      · exact absurd ((hothers r hrs).symm.trans hfinished) hunfinished
  · rintro before b after u u' rfl hb hbefore hbstep
    obtain ⟨u₁, hu₁, hrest⟩ := run_append_eq_some.mp hrun
    obtain rfl := Option.some.inj (hbefore.symm.trans hu₁)
    obtain ⟨u₂, hu₂, hafter⟩ := run_cons_eq_some.mp hrest
    obtain rfl := Option.some.inj (hbstep.symm.trans hu₂)
    have hpast := once_of_run hstart (fun c hc => hconnects c (List.mem_append_left _ hc)) hbefore
    rcases hpast.1.writes hb hbstep with hsame | ⟨-, hlisting | ⟨site, hstage, herased, -⟩⟩
    · rw [hsame]
      exact ⟨List.Sublist.refl _, fun site hsite hgone => absurd hsite hgone⟩
    · -- its write would have left it before its answer, or ended
      have hdone := done_of_run ⟨hpast.1.step hpast.2 hb hbstep, hpast.2.step hbstep⟩
        (fun c hc => hconnects c (List.mem_append_right _ (List.mem_cons_of_mem b hc))) (.inl hlisting) hafter
      exact (hdone.elim (fun ⟨p, hp⟩ => hfails.2.1 p hp) hfails.1).elim
    · rw [herased]
      exact hpast.1.keeps_erase hstage

/-- Two tabs of an origin that is not connected: one asks the user, and the other waits for it. -/
private def twoTabs : List Act :=
  [.arrive 0 "https://new" .connect, .arrive 1 "https://new" .connect, .lookUp 0, .lookUp 1]

private theorem isSome_twoTabs :
    (run (step oneAddress) (start oneSite fun _ => false) twoTabs).isSome := by
  decide

private theorem isSome_refused :
    (step oneAddress ((run (step oneAddress) (start oneSite fun _ => false) twoTabs).get
      isSome_twoTabs) (.fail 0)).isSome := by
  decide

theorem connects_twoTabs :
    (((run (step oneAddress) (start oneSite fun _ => false) twoTabs).get
        isSome_twoTabs).sites.map ConnectedSite.origin).Nodup ∧
      ((step oneAddress ((run (step oneAddress) (start oneSite fun _ => false) twoTabs).get
        isSome_twoTabs) (.fail 0)).get isSome_refused).sites = oneSite.sites := by
  have hconnects : ∀ a ∈ twoTabs, a.ofConnect.isSome := by decide
  have hwhole := connects_of_run hconnects (Option.some_get isSome_twoTabs).symm
  have hasking : Stage.connecting ≠ .finished ∧ (∀ p, Stage.connecting ≠ .listing p) ∧
      Stage.finished = .finished := by simp
  exact ⟨hwhole.1, (hwhole.2 (.fail 0) 0 _ rfl (Option.some_get isSome_refused).symm hasking).1⟩

/-- A site that was approved automatically. -/
private def autoApprovedSite : Saved where
  sites := [⟨0, "http://localhost", 0, ⟨["btc"], ["main"], false, fun _ => none⟩, true⟩]
  nextId := 1
  distinct := by decide
  below := by decide
  single := by decide

theorem not_connects_of_run :
    ¬∀ (wallet : Wallet) (saved : Saved) (autoApprove : String → Bool) (as : List Act) (r : ℕ)
      (w w' : BridgeState), (∀ a ∈ as, a.ofConnect = some r) →
      run (step wallet) (start saved autoApprove) as = some w →
        step wallet w (.fail r) = some w' → Fails w w' r → w'.sites = saved.sites := by
  intro h
  have hasking : Stage.connecting ≠ .finished ∧ (∀ p, Stage.connecting ≠ .listing p) ∧
      Stage.finished = .finished := by simp
  have hsites := h oneAddress autoApprovedSite (fun _ => false)
    [.arrive 0 "http://localhost" .connect, .lookUp 0, .drop 0] 0 _ _ (by decide) rfl rfl hasking
  exact absurd (congrArg List.length hsites) (by decide)

end XchainWallet.Bridge
