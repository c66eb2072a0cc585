import XchainWallet.Bridge.Numbered

/-!
# Answers inside the grant

`InsideGrant` says that every answer of a handler concerns only chains and accounts that some record of the
origin granted, at a moment after the user approved, or after the request began where the user was not asked.
The reading methods check the present record before they answer. A signing method checks the copy that it
read at the start, and after the prompt only that the record is still stored, so this fails where the grant
was narrowed during the prompt. It holds in every run in which no write of the store leaves out what an open
request of the site is about (`insideGrant_of_run`).
-/

namespace XchainWallet.Bridge

open Checks Transition BridgeState

variable {wallet : Wallet} {w w' : BridgeState} {r : ℕ}

/-- Some record of the origin satisfied `P` at the moment `since` or later. -/
def StoredSince (moments : List (List ConnectedSite)) (origin : String) (since : ℕ)
    (P : SitePermissions → Prop) : Prop :=
  ∃ t, since ≤ t ∧ ∃ sites, moments[t]? = some sites ∧
    ∃ site ∈ sites, site.origin = origin ∧ P site.permissions

/-- Every answer is inside the permissions of the origin at some moment since its approval. -/
def InsideGrant (wallet : Wallet) (w : BridgeState) : Prop :=
  ∀ r, ∀ answer ∈ (w.requests r).answers,
    StoredSince w.moments (w.requests r).origin answer.1 fun p => answer.2.Within wallet p

/-! ### What an open request is about -/

/-- The answers that a signature can have, by the request and the grant that was read. -/
def SignRequest.concerns (wallet : Wallet) (read : SitePermissions) : SignRequest → List Answer
  | .message chainId address => [.signature chainId address]
  | .action chainId _ fromAddress => [.submitted chainId fromAddress]
  | .psbt chainId signingPaths =>
    [.signedPsbt chainId (signingPaths.filterMap fun entry => entry.find wallet chainId)]
  | .coSign chainId aggregateAddress =>
    (findCoSignerAccountByAddress wallet chainId aggregateAddress).toList.map .coSigned
  | .signIn coins chainId =>
    (signInCandidates wallet read coins chainId).map fun c => .signature c.chainId c.address

/-- What the copy grants of the request, `p` grants too. -/
def SignRequest.CoveredBy (wallet : Wallet) (read p : SitePermissions) (request : SignRequest) : Prop :=
  ∀ answer ∈ request.concerns wallet read, answer.Within wallet read → answer.Within wallet p

/-- The copy of a signing method that is not through. -/
def Stage.openCopy : Stage → Option ConnectedSite
  | .found site | .ready site | .prompted site | .approved site | .held site | .saving site => some site
  | _ => none

/-- The signatures for which the second lookup is still to come. -/
def Request.openWork (q : Request) : List SignRequest :=
  match q.stage with
  | .held _ | .saving _ => q.work.tail
  | _ => q.work

/-- A record with the permissions `p` under `id` leaves out nothing that an open request is about. -/
def CoversOpen (wallet : Wallet) (w : BridgeState) (id : ℕ) (p : SitePermissions) : Prop :=
  ∀ r site, (w.requests r).stage.openCopy = some site → site.id = id →
    ∀ request ∈ (w.requests r).openWork, request.CoveredBy wallet site.permissions p

/-- No write of the store leaves out what an open request of the site is about. -/
def Covering (wallet : Wallet) (w : BridgeState) : Act → Prop
  | .touch r _ => ∀ site ∈ (w.requests r).stage.copy, CoversOpen wallet w site.id site.permissions
  | .save r _ => ∀ site ∈ (w.requests r).stage.copy, ∀ p ∈ (w.requests r).toSave,
      CoversOpen wallet w site.id p
  | .removeAccounts r => ∀ site accounts, (w.requests r).stage = .removing site accounts →
      CoversOpen wallet w site.id (withoutAccounts site.permissions accounts)
  | .edit id p => CoversOpen wallet w id p
  | _ => True

/-! ### What the checks say -/

variable {p : SitePermissions}

theorem hasChain_of_assertChainPermitted {chainId : String}
    (h : assertChainPermitted p chainId = .ok ()) : p.HasChain chainId := by
  simp only [assertChainPermitted, bind_eq_ok, refuseIf_eq_ok, not_not] at h
  obtain ⟨_, -, h⟩ := h
  exact h

theorem hasAddress_of_assertAddressPermitted {chainId address : String}
    (h : assertAddressPermitted wallet p chainId address = .ok ()) :
    p.HasAddress wallet chainId address := by
  simp only [assertAddressPermitted] at h
  split at h
  · next hnil => exact .inl hnil
  · simp only [bind_eq_ok, refuseIf_eq_ok, Bool.not_eq_false] at h
    obtain ⟨_, -, h⟩ := h
    exact .inr h

theorem find_of_resolve {chainId : String} {entries : List SigningPath} {addresses : List Address}
    (h : resolveBridgeSigningPaths wallet p chainId entries = .ok addresses) :
    addresses = entries.filterMap (fun entry => entry.find wallet chainId) ∧
      ∀ a ∈ addresses, p.HasOwner a := by
  induction entries generalizing addresses with
  | nil =>
    cases h
    exact ⟨rfl, List.forall_mem_nil _⟩
  | cons entry entries ih =>
    simp only [resolveBridgeSigningPaths, List.mapM_cons, bind_eq_ok, pure_eq_ok] at h
    obtain ⟨a, ha, rest, hrest, rfl⟩ := h
    simp only [resolveBridgeSigningPath, bind_eq_ok, orRefuse_eq_ok, refuseIf_eq_ok, not_not,
      pure_eq_ok] at ha
    obtain ⟨a', hfind, _, howner, rfl⟩ := ha
    obtain ⟨heq, hall⟩ := ih hrest
    refine ⟨?_, ?_⟩
    · rw [List.filterMap_cons_some hfind, ← heq]
    · exact List.forall_mem_cons.mpr ⟨howner, hall⟩

/-- **An answer is what the request is about**, and inside the copy that it was checked against. -/
theorem within_of_afterApproval {decision : Decision} {request : SignRequest} {answer : Answer}
    (hbefore : beforePrompt wallet p request = .ok ())
    (hafter : afterApproval wallet p decision request = .ok answer) :
    answer ∈ request.concerns wallet p ∧ answer.Within wallet p := by
  cases request with
  | message chainId address =>
    simp only [beforePrompt, bind_eq_ok] at hbefore
    obtain ⟨_, hchain, haddress⟩ := hbefore
    simp only [afterApproval, bind_eq_ok, pure_eq_ok] at hafter
    obtain ⟨_, -, rfl⟩ := hafter
    exact ⟨List.mem_singleton_self _, hasChain_of_assertChainPermitted hchain,
      hasAddress_of_assertAddressPermitted haddress⟩
  | action chainId name fromAddress =>
    simp only [beforePrompt, bind_eq_ok] at hbefore
    obtain ⟨_, hchain, _, -, _, -, haddress⟩ := hbefore
    simp only [afterApproval, bind_eq_ok, pure_eq_ok] at hafter
    obtain ⟨_, -, rfl⟩ := hafter
    exact ⟨List.mem_singleton_self _, hasChain_of_assertChainPermitted hchain,
      hasAddress_of_assertAddressPermitted haddress⟩
  | psbt chainId signingPaths =>
    simp only [beforePrompt, bind_eq_ok] at hbefore
    obtain ⟨_, hchain, -⟩ := hbefore
    simp only [afterApproval, bind_eq_ok, pure_eq_ok] at hafter
    obtain ⟨addresses, hresolve, rfl⟩ := hafter
    obtain ⟨rfl, howners⟩ := find_of_resolve hresolve
    exact ⟨List.mem_singleton_self _, hasChain_of_assertChainPermitted hchain, howners⟩
  | coSign chainId aggregateAddress =>
    simp only [beforePrompt, bind_eq_ok, orRefuse_eq_ok] at hbefore
    obtain ⟨_, hchain, account, hfind, hpermitted⟩ := hbefore
    simp only [afterApproval, bind_eq_ok, orRefuse_eq_ok, pure_eq_ok] at hafter
    obtain ⟨account', hfind', rfl⟩ := hafter
    cases hfind.symm.trans hfind'
    have haccount : account.chainId = chainId := by
      have hspec := List.find?_some hfind
      simp only [decide_eq_true_eq] at hspec
      exact hspec.2.1
    refine ⟨?_, ?_, not_not.mp (refuseIf_eq_ok.mp hpermitted)⟩
    · simp only [SignRequest.concerns, hfind, Option.toList_some, List.map_cons, List.map_nil,
        List.mem_singleton]
    · rw [haccount]
      exact hasChain_of_assertChainPermitted hchain
  | signIn coins chainId =>
    simp only [afterApproval, bind_eq_ok, orRefuse_eq_ok, pure_eq_ok] at hafter
    obtain ⟨chosen, hchosen, _, hchain, _, haddress, _, -, rfl⟩ := hafter
    have hspec := List.find?_some hchosen
    simp only [decide_eq_true_eq] at hspec
    refine ⟨List.mem_map.mpr ⟨chosen, List.mem_of_find?_eq_some hchosen, ?_⟩,
      hasChain_of_assertChainPermitted hchain, hasAddress_of_assertAddressPermitted haddress⟩
    rw [hspec.1]

variable {method : Method}

/-- What a reading method hands out is inside the record that it checked last. -/
theorem within_readAnswer (h : readCheck wallet p method = .ok ()) :
    (readAnswer wallet p method).Within wallet p := by
  have haccounts : Answer.Within wallet p (.accounts (accountRecordsFrom wallet p)) := fun a ha =>
    of_decide_eq_true (List.mem_filter.mp ha).2
  cases method with
  | getAddresses chainId =>
    simp only [readCheck, bind_eq_ok, orRefuse_eq_ok] at h
    obtain ⟨_, hchain, d, hd, -⟩ := h
    simp only [readAnswer, hd]
    exact ⟨hasChain_of_assertChainPermitted hchain, fun a ha =>
      (of_decide_eq_true (List.mem_filter.mp ha).2).2⟩
  | getBalances chainId address =>
    simp only [readCheck, bind_eq_ok, refuseIf_eq_ok, Bool.not_eq_false] at h
    obtain ⟨_, hchain, _, -, haddress⟩ := h
    exact ⟨hasChain_of_assertChainPermitted hchain, .inr haddress⟩
  | getAccounts | sign requests grouped cacheable | connect | disconnect => exact haccounts

/-! ### What has been stored -/

variable {moments : List (List ConnectedSite)}

theorem StoredSince.mono {origin : String} {since : ℕ} {P Q : SitePermissions → Prop}
    (h : StoredSince moments origin since P) (hPQ : ∀ p, P p → Q p) :
    StoredSince moments origin since Q := by
  obtain ⟨t, ht, sites, hsites, site, hsite, horigin, hP⟩ := h
  exact ⟨t, ht, sites, hsites, site, hsite, horigin, hPQ _ hP⟩

theorem StoredSince.append {origin : String} {since : ℕ} {P : SitePermissions → Prop}
    (h : StoredSince moments origin since P) (sites : List ConnectedSite) :
    StoredSince (moments ++ [sites]) origin since P := by
  obtain ⟨t, ht, stored, hstored, hrest⟩ := h
  have hlt : t < moments.length := (List.getElem?_eq_some_iff.mp hstored).1
  exact ⟨t, ht, stored, (List.getElem?_append_left hlt).trans hstored, hrest⟩

variable {site : ConnectedSite}

/-- What is stored now has been stored since any moment that is past. -/
theorem storedSince_last {sites : List ConnectedSite} {since : ℕ} {P : SitePermissions → Prop}
    (hlast : moments.getLast? = some sites) (hsince : since < moments.length) (hsite : site ∈ sites)
    (hP : P site.permissions) :
    StoredSince moments site.origin since P := by
  refine ⟨moments.length - 1, Nat.le_sub_one_of_lt hsince, sites, ?_, site, hsite, rfl, hP⟩
  rw [← List.getLast?_eq_getElem?]
  exact hlast

/-! ### One request -/

/-- The next signature passed the checks against the copy. -/
def Request.Passes (wallet : Wallet) (q : Request) (site : ConnectedSite) : Prop :=
  ∀ request ∈ q.work.head?, beforePrompt wallet site.permissions request = .ok ()

/-- What a request knows at its stage. -/
def Request.Knows (wallet : Wallet) (moments : List (List ConnectedSite)) (q : Request) : Prop :=
  match q.stage with
  | .prompted site => (q.grouped ∧ q.decided = false) ∨ q.Passes wallet site
  | .approved site => q.Passes wallet site
  | .held site => q.Passes wallet site ∧ ∀ request ∈ q.work.head?,
      ∀ answer ∈ request.concerns wallet site.permissions, answer.Within wallet site.permissions →
        StoredSince moments q.origin q.approvedAt (answer.Within wallet)
  | .touching site => StoredSince moments q.origin q.approvedAt (· = site.permissions)
  | .listing p => StoredSince moments q.origin q.approvedAt (· = p)
  | _ => True

/-- A request, its answers inside the grant, and a copy of which the store has lost nothing that matters. -/
structure Fine (wallet : Wallet) (moments : List (List ConnectedSite)) (q : Request) : Prop where
  began : q.began < moments.length
  approved : q.approvedAt < moments.length
  answers : ∀ answer ∈ q.answers, StoredSince moments q.origin answer.1 (answer.2.Within wallet)
  read : ∀ site, q.stage.openCopy = some site →
    StoredSince moments q.origin q.began (· = site.permissions)
  covered : ∀ sites, moments.getLast? = some sites → ∀ site, q.stage.openCopy = some site →
    ∀ current ∈ sites, current.id = site.id →
      ∀ request ∈ q.openWork, request.CoveredBy wallet site.permissions current.permissions
  knows : q.Knows wallet moments

variable {moments : List (List ConnectedSite)} {q q' : Request}

/-- The store is written, and loses nothing that the request is about. -/
theorem Fine.write (h : Fine wallet moments q) {sites : List ConnectedSite}
    (hcovers : ∀ site, q.stage.openCopy = some site → ∀ current ∈ sites, current.id = site.id →
      ∀ request ∈ q.openWork, request.CoveredBy wallet site.permissions current.permissions) :
    Fine wallet (moments ++ [sites]) q where
  began := Nat.lt_of_lt_of_le h.began (List.length_append ▸ Nat.le_add_right _ _)
  approved := Nat.lt_of_lt_of_le h.approved (List.length_append ▸ Nat.le_add_right _ _)
  answers := fun answer hanswer => (h.answers answer hanswer).append sites
  read := fun site hsite => (h.read site hsite).append sites
  covered := fun last hlast => by
    rw [List.getLast?_concat] at hlast
    exact Option.some.inj hlast ▸ hcovers
  knows := by
    have hknows := h.knows
    simp only [Request.Knows] at hknows ⊢
    split at hknows
    · exact hknows
    · exact hknows
    · exact ⟨hknows.1, fun request hrequest answer hanswer hwithin =>
        (hknows.2 request hrequest answer hanswer hwithin).append sites⟩
    · exact hknows.append sites
    · exact hknows.append sites
    · trivial

/-- A request goes on, with its copy or without. -/
theorem Fine.go (h : Fine wallet moments q) (horigin : q'.origin = q.origin) (hbegan : q'.began = q.began)
    (hanswers : q'.answers = q.answers) (happroved : q'.approvedAt < moments.length)
    (hcopy : ∀ site, q'.stage.openCopy = some site →
      q.stage.openCopy = some site ∧ ∀ request ∈ q'.openWork, request ∈ q.openWork)
    (hknows : q'.Knows wallet moments) : Fine wallet moments q' where
  began := hbegan ▸ h.began
  approved := happroved
  answers := hanswers ▸ horigin ▸ h.answers
  read := fun site hsite => by
    rw [horigin, hbegan]
    exact h.read site (hcopy site hsite).1
  covered := fun sites hsites site hsite current hcurrent hid request hrequest =>
    h.covered sites hsites site (hcopy site hsite).1 current hcurrent hid request
      ((hcopy site hsite).2 request hrequest)
  knows := hknows

/-- A request goes on without a copy. -/
theorem Fine.goOut (h : Fine wallet moments q) (horigin : q'.origin = q.origin) (hbegan : q'.began = q.began)
    (hanswers : q'.answers = q.answers) (happroved : q'.approvedAt < moments.length)
    (hopen : q'.stage.openCopy = none) (hknows : q'.Knows wallet moments) : Fine wallet moments q' :=
  h.go horigin hbegan hanswers happroved (fun site hsite => by
    rw [hopen] at hsite
    cases hsite) hknows

theorem Fine.leave (h : Fine wallet moments q) {stage : Stage} (hopen : stage.openCopy = none)
    (hknows : Request.Knows wallet moments { q with stage := stage }) :
    Fine wallet moments { q with stage := stage } :=
  h.goOut rfl rfl rfl h.approved hopen hknows

/-- A request begins. -/
theorem fine_of_new (hbegan : q.began < moments.length) (happroved : q.approvedAt < moments.length)
    (hanswers : q.answers = []) (hopen : q.stage.openCopy = none) (hknows : q.Knows wallet moments) :
    Fine wallet moments q where
  began := hbegan
  approved := happroved
  answers := hanswers ▸ List.forall_mem_nil _
  read := fun site hsite => by
    rw [hopen] at hsite
    cases hsite
  covered := fun _ _ site hsite => by
    rw [hopen] at hsite
    cases hsite
  knows := hknows

/-- A request answers. -/
theorem Fine.answer (h : Fine wallet moments q) {since : ℕ} {answer : Answer}
    (hanswer : StoredSince moments q.origin since (answer.Within wallet)) :
    Fine wallet moments { q with answers := q.answers ++ [(since, answer)] } where
  began := h.began
  approved := h.approved
  answers := fun other hother => by
    rcases List.mem_append.mp hother with hother | hother
    · exact h.answers other hother
    · obtain rfl := List.mem_singleton.mp hother
      exact hanswer
  read := h.read
  covered := h.covered
  knows := h.knows

/-! ### The whole system -/

structure Inside (wallet : Wallet) (w : BridgeState) : Prop where
  last : w.moments.getLast? = some w.sites
  fine : ∀ r, Fine wallet w.moments (w.requests r)

theorem Inside.now_lt (h : Inside wallet w) : w.now < w.moments.length := by
  have hne : w.moments ≠ [] := by
    intro hnil
    have hlast := h.last
    rw [hnil] at hlast
    cases hlast
  exact Nat.sub_lt (List.length_pos_iff.mpr hne) Nat.one_pos

theorem Inside.setRequest (h : Inside wallet w) {q : Request} (hq : Fine wallet w.moments q) :
    Inside wallet (w.setRequest r q) where
  last := h.last
  fine := fun s => by
    rcases eq_or_ne s r with rfl | hsr
    · simp only [setRequest, Function.update_self]
      exact hq
    · simp only [BridgeState.setRequest, Function.update_of_ne hsr]
      exact h.fine s

/-- A request goes on without a copy, and knows nothing more. -/
theorem Inside.leave (h : Inside wallet w) {stage : Stage} (hopen : stage.openCopy = none)
    (hknows : Request.Knows wallet w.moments { w.requests r with stage := stage }) :
    Inside wallet (w.setStage r stage) :=
  h.setRequest ((h.fine r).leave hopen hknows)

/-- To note that copies are stale changes nothing here. -/
theorem Inside.restale (h : Inside wallet w) (stale : ℕ → Prop) :
    Inside wallet { w with requests := fun r => { w.requests r with stale := stale r } } where
  last := h.last
  fine := fun r => { h.fine r with }

/-- A record is written that covers what is open. -/
theorem Inside.put (h : Inside wallet w) (hcovers : CoversOpen wallet w site.id site.permissions) :
    Inside wallet (w.put site) where
  last := List.getLast?_concat
  fine := fun r => (h.fine r).write fun copy hcopy current hcurrent hid => by
    rcases Keyed.mem_upsert hcurrent with rfl | hcurrent
    · exact hcovers r copy hcopy hid.symm
    · exact (h.fine r).covered _ h.last copy hcopy current hcurrent hid

theorem Inside.delete (h : Inside wallet w) (id : ℕ) : Inside wallet (w.delete id) := by
  have herased : Inside wallet (w.setSites (Keyed.erase ConnectedSite.id id w.sites)) :=
    { last := List.getLast?_concat
      fine := fun r => (h.fine r).write fun copy hcopy current hcurrent hid =>
        (h.fine r).covered _ h.last copy hcopy current (Keyed.mem_of_mem_erase hcurrent) hid }
  exact { herased.restale _ with }

/-! ### Signing methods -/

/-- The next signatures are open at every stage. -/
theorem tail_subset_openWork {request : SignRequest} (h : request ∈ q.work.tail) : request ∈ q.openWork := by
  simp only [Request.openWork]
  split
  · exact h
  · exact h
  · exact List.mem_of_mem_tail h

theorem Inside.next (h : Inside wallet w) (hopen : (w.requests r).stage.openCopy = some site) :
    Inside wallet (w.next r site) := by
  simp only [BridgeState.next]
  split
  · exact h.setRequest ((h.fine r).goOut rfl rfl rfl (h.fine r).approved rfl trivial)
  · refine h.setRequest ((h.fine r).go rfl rfl rfl (h.fine r).approved (fun other hother => ?_) trivial)
    exact ⟨hopen.trans hother, fun request hrequest => tail_subset_openWork hrequest⟩

/-- A request whose checks are still to come, or have passed, keeps its copy. -/
theorem Inside.goOn (h : Inside wallet w) {q : Request}
    (hstage : (w.requests r).stage.openCopy = some site)
    (hwork : ∀ request ∈ q.openWork, request ∈ (w.requests r).openWork)
    (horigin : q.origin = (w.requests r).origin) (hbegan : q.began = (w.requests r).began)
    (hanswers : q.answers = (w.requests r).answers) (happroved : q.approvedAt < w.moments.length)
    (hopen : q.stage.openCopy = some site) (hknows : q.Knows wallet w.moments) :
    Inside wallet (w.setRequest r q) :=
  h.setRequest ((h.fine r).go horigin hbegan hanswers happroved
    (fun _ hother => ⟨hstage.trans (hopen.symm.trans hother), hwork⟩) hknows)

/-- The checks of the next signature pass. -/
theorem passes_of_cons {request : SignRequest} {rest : List SignRequest}
    (hwork : q.work = request :: rest) (hok : beforePrompt wallet site.permissions request = .ok ()) :
    q.Passes wallet site := fun other hother => by
  rw [hwork] at hother
  exact Option.some.inj hother ▸ hok

theorem Inside.ask (h : Inside wallet w) (hstage : (w.requests r).stage = .ready site) :
    Inside wallet (w.ask wallet r site) := by
  have hopen : (w.requests r).stage.openCopy = some site := by rw [hstage]; rfl
  have hwork : ∀ request ∈ (w.requests r).work, request ∈ (w.requests r).openWork := fun _ hrequest => by
    simpa only [Request.openWork, hstage] using hrequest
  simp only [BridgeState.ask]
  split
  · next hgrouped => exact h.goOn hopen hwork rfl rfl rfl (h.fine r).approved rfl (.inl hgrouped)
  · split
    · exact h.leave rfl trivial
    · next request rest hcons =>
      split
      · exact h.next hopen
      · next hok =>
        have hpasses := passes_of_cons hcons hok
        split
        · exact h.goOn hopen hwork rfl rfl rfl (h.fine r).approved rfl hpasses
        · exact h.goOn hopen hwork rfl rfl rfl (h.fine r).approved rfl (.inr hpasses)

theorem Inside.useCache (h : Inside wallet w) (hstage : (w.requests r).stage = .ready site) :
    Inside wallet (w.useCache wallet r site) := by
  have hopen : (w.requests r).stage.openCopy = some site := by rw [hstage]; rfl
  have hwork : ∀ request ∈ (w.requests r).work, request ∈ (w.requests r).openWork := fun _ hrequest => by
    simpa only [Request.openWork, hstage] using hrequest
  simp only [BridgeState.useCache]
  split
  · exact h.leave rfl trivial
  · next request rest hcons =>
    split
    · exact h.next hopen
    · next hok =>
      have hpasses := passes_of_cons hcons hok
      split
      · -- no prompt, so the permissions at the first lookup are those of a moment that counts
        refine h.goOn hopen (fun _ hrequest => hwork _ (List.mem_of_mem_tail hrequest)) rfl rfl rfl
          (h.fine r).began rfl ⟨hpasses, fun _ _ answer _ hwithin => ?_⟩
        exact ((h.fine r).read site hopen).mono fun p hp => hp ▸ hwithin
      · exact h.goOn hopen hwork rfl rfl rfl (h.fine r).began rfl hpasses

theorem Inside.approve (h : Inside wallet w) (hstage : (w.requests r).stage = .prompted site)
    (decision : Decision) :
    Inside wallet (w.approve r site decision) := by
  have hopen : (w.requests r).stage.openCopy = some site := by rw [hstage]; rfl
  have hwork : ∀ request ∈ (w.requests r).work, request ∈ (w.requests r).openWork := fun _ hrequest => by
    simpa only [Request.openWork, hstage] using hrequest
  have hknows := (h.fine r).knows
  simp only [Request.Knows, hstage] at hknows
  simp only [BridgeState.approve]
  split
  · exact h.goOn hopen hwork rfl rfl rfl h.now_lt rfl trivial
  · next hgrouped =>
    have hgiven : Inside wallet (w.giveBack site.id fun g => ∃ p, (if decision.savePermanent then
        (w.requests r).work.head?.bind (savedPermissions site.permissions) else none) = some p ∧
          p.Grants g ∧ ¬site.permissions.Grants g) := ⟨h.last, h.fine⟩
    exact hgiven.goOn hopen hwork rfl rfl rfl h.now_lt rfl (hknows.resolve_left hgrouped)

/-- **The second lookup.** The record that is stored now covers the next signature. -/
theorem Inside.assertGrantStillHeld (h : Inside wallet w)
    (hstage : (w.requests r).stage = .approved site) :
    Inside wallet (w.assertGrantStillHeld r site) := by
  have hopen : (w.requests r).stage.openCopy = some site := by rw [hstage]; rfl
  have hwork : ∀ request ∈ (w.requests r).work, request ∈ (w.requests r).openWork := fun _ hrequest => by
    simpa only [Request.openWork, hstage] using hrequest
  have hknows := (h.fine r).knows
  simp only [Request.Knows, hstage] at hknows
  simp only [BridgeState.assertGrantStillHeld]
  split
  · exact h.next hopen
  · next current hfind =>
    split
    · next hid =>
      refine h.goOn hopen (fun _ hrequest => hwork _ (List.mem_of_mem_tail hrequest)) rfl rfl rfl
        (h.fine r).approved rfl ⟨hknows, fun request hrequest answer hanswer hwithin => ?_⟩
      have hmem : current ∈ w.sites := Keyed.mem_of_find hfind
      have hcovered := (h.fine r).covered _ h.last site hopen current hmem hid request
        (hwork _ (List.mem_of_mem_head? hrequest))
      have hstored : StoredSince w.moments current.origin (w.requests r).approvedAt (answer.Within wallet) :=
        storedSince_last h.last (h.fine r).approved hmem (hcovered answer hanswer hwithin)
      rw [Keyed.key_of_find hfind] at hstored
      exact hstored
    · exact h.next hopen

/-- **The signature.** It is inside the permissions that the second lookup found. -/
theorem Inside.sign (h : Inside wallet w) (hstage : (w.requests r).stage = .held site) :
    Inside wallet (w.sign wallet r site) := by
  have hopen : (w.requests r).stage.openCopy = some site := by rw [hstage]; rfl
  have hknows := (h.fine r).knows
  simp only [Request.Knows, hstage] at hknows
  simp only [BridgeState.sign]
  split
  · exact h.leave rfl trivial
  · next request rest hcons =>
    split
    · exact h.next hopen
    · next answer hanswer =>
      have hhead : request ∈ (w.requests r).work.head? := by rw [hcons]; rfl
      obtain ⟨hconcerns, hwithin⟩ := within_of_afterApproval (hknows.1 request hhead) hanswer
      set q : Request := { w.requests r with
        answers := (w.requests r).answers ++ [((w.requests r).approvedAt, answer)] } with hq
      have hfine : Fine wallet w.moments q := (h.fine r).answer (hknows.2 request hhead answer hconcerns hwithin)
      have hanswered : Inside wallet (w.setRequest r q) := h.setRequest hfine
      have hself : (w.setRequest r q).requests r = q := by simp only [BridgeState.setRequest, Function.update_self]
      have hopen' : ((w.setRequest r q).requests r).stage.openCopy = some site := by
        rw [hself]
        exact hopen
      split
      · refine hanswered.goOn hopen' ?_ rfl rfl rfl ?_ rfl trivial
        · rw [hself]
          exact fun other hother => tail_subset_openWork hother
        · rw [hself]
          exact hfine.approved
      · exact hanswered.next hopen'

theorem copy_of_openCopy {stage : Stage} (h : stage.openCopy = some site) :
    stage.copy = some site := by
  cases stage <;> first | exact h | cases h

theorem Inside.touchLastUsed (h : Inside wallet w) {lastUsedAt : ℕ}
    (hstage : (w.requests r).stage = .found site)
    (hcovers : CoversOpen wallet w site.id site.permissions) :
    Inside wallet (w.touchLastUsed r site lastUsedAt (.ready site)) := by
  have hput : Inside wallet (w.put { site with lastUsedAt := lastUsedAt }) := h.put hcovers
  have hwork : ∀ request ∈ (w.requests r).work, request ∈ (w.requests r).openWork := fun _ hrequest => by
    simpa only [Request.openWork, hstage] using hrequest
  exact hput.goOn (by rw [BridgeState.put, BridgeState.setSites, hstage]; rfl) hwork rfl rfl rfl
    (hput.fine r).approved rfl trivial

theorem Inside.updateSitePermissions (h : Inside wallet w) {lastUsedAt : ℕ}
    (hstage : (w.requests r).stage = .saving site) (hcovers : CoversOpen wallet w site.id p) :
    Inside wallet (w.updateSitePermissions r site p lastUsedAt) := by
  have hput : Inside wallet (w.put { site with permissions := p, lastUsedAt := lastUsedAt }) := h.put hcovers
  exact hput.next (by rw [BridgeState.put, BridgeState.setSites, hstage]; rfl)

/-! ### Reading methods and connect -/

/-- A reading method answers from the record that is stored now. -/
theorem Inside.readCurrent (h : Inside wallet w) :
    Inside wallet (w.readCurrent wallet r method site) := by
  simp only [BridgeState.readCurrent]
  split
  · exact h.leave rfl trivial
  · next current hfind =>
    split
    · split
      · exact h.leave rfl trivial
      · next hok =>
        have hstored : StoredSince w.moments current.origin (w.requests r).began
            ((readAnswer wallet current.permissions method).Within wallet) :=
          storedSince_last h.last (h.fine r).began (Keyed.mem_of_find hfind) (within_readAnswer hok)
        rw [Keyed.key_of_find hfind] at hstored
        exact h.setRequest (((h.fine r).answer hstored).leave rfl trivial)
    · exact h.leave rfl trivial

theorem Inside.connectAnew (h : Inside wallet w) : Inside wallet (w.connectAnew r) := by
  simp only [BridgeState.connectAnew]
  split
  · exact h.leave rfl trivial
  · have hasked : Inside wallet (w.setStage r .connecting) := h.leave rfl trivial
    exact { hasked with }

theorem Inside.endConnect (h : Inside wallet w) (ok : Bool) : Inside wallet (w.endConnect r ok) := by
  have hended : Inside wallet (w.setStage r .finished) := h.leave rfl trivial
  have hfine : ∀ s, Fine wallet w.moments ((w.endConnect r ok).requests s) := by
    intro s
    rcases requests_endConnect w r ok s with hsame | ⟨-, -, hnew⟩
    · rw [hsame]
      exact hended.fine s
    · rw [hnew]
      cases ok with
      | true | false => exact (h.fine s).leave rfl trivial
  obtain ⟨requests, connectsInFlight, hframe⟩ := endConnect_frame w r ok
  rw [hframe] at hfine ⊢
  exact ⟨h.last, hfine⟩

/-- A request holds a copy of a stored record. -/
theorem Fine.hold (h : Fine wallet moments q) {sites : List ConnectedSite} {site : ConnectedSite}
    {stage : Stage} (hlast : moments.getLast? = some sites) (hsite : site ∈ sites)
    (hsame : ∀ current ∈ sites, current.id = site.id → current = site) (horigin : site.origin = q.origin)
    (hcopy : stage.openCopy = none ∨ stage.openCopy = some site)
    (hknows : StoredSince moments q.origin q.approvedAt (· = site.permissions) →
      Request.Knows wallet moments { q with stage := stage, toSave := none, stale := False }) :
    Fine wallet moments { q with stage := stage, toSave := none, stale := False } := by
  have hknows := hknows (horigin ▸ storedSince_last hlast h.approved hsite rfl)
  rcases hcopy with hcopy | hcopy
  · exact h.goOut rfl rfl rfl h.approved hcopy hknows
  · have hother : ∀ other, stage.openCopy = some other → site = other := fun other hother =>
      Option.some.inj (hcopy.symm.trans hother)
    refine ⟨h.began, h.approved, h.answers, fun other hopen => ?_, fun last hlast' other hopen => ?_, hknows⟩
    · obtain rfl := hother other hopen
      exact horigin ▸ storedSince_last hlast h.began hsite rfl
    · obtain rfl := hother other hopen
      obtain rfl := Option.some.inj (hlast.symm.trans hlast')
      intro current hcurrent hid request hrequest answer hanswer hwithin
      rw [hsame current hcurrent hid]
      exact hwithin

theorem Inside.lookAgain (h : Inside wallet w) (hn : Numbered w) {autoApproved : Bool} :
    Inside wallet (w.lookAgain r p autoApproved) := by
  simp only [BridgeState.lookAgain]
  split
  · next stored hfind =>
    have hmem : stored ∈ w.sites := Keyed.mem_of_find hfind
    exact h.setRequest ((h.fine r).hold h.last hmem (fun current hcurrent => hn.eq_of_id hcurrent hmem)
      (Keyed.key_of_find hfind) (.inl rfl) id)
  · exact h.leave rfl trivial

theorem Inside.lookUp (h : Inside wallet w) (hn : Numbered w) :
    Inside wallet (w.lookUp wallet r method) := by
  simp only [BridgeState.lookUp]
  split
  · split
    · exact h.connectAnew
    · exact h.leave rfl trivial
  · next site hfind =>
    have hmem : site ∈ w.sites := Keyed.mem_of_find hfind
    have hsame : ∀ current ∈ w.sites, current.id = site.id → current = site := fun current hcurrent =>
      hn.eq_of_id hcurrent hmem
    split
    · split
      · exact h.leave rfl trivial
      · exact h.setRequest ((h.fine r).hold h.last hmem hsame (Keyed.key_of_find hfind) (.inl rfl) id)
    · exact h.leave rfl trivial
    · exact h.setRequest ((h.fine r).hold h.last hmem hsame (Keyed.key_of_find hfind)
        (.inr rfl) fun _ => trivial)
    · split
      · exact h.leave rfl trivial
      · exact h.leave rfl trivial

theorem Inside.drop (h : Inside wallet w) :
    Inside wallet (w.drop r method site) := by
  simp only [BridgeState.drop]
  split
  · exact (h.delete site.id).connectAnew
  · exact (h.delete site.id).leave rfl trivial

/-- The new record is stored: no copy is under its id, and its permissions are what `connect` answers from. -/
theorem Inside.store (h : Inside wallet w) (hn : Numbered w) {autoApproved : Bool} {lastUsedAt : ℕ} : Inside wallet (w.store r p autoApproved lastUsedAt) := by
  set site : ConnectedSite := ⟨w.nextId, (w.requests r).origin, lastUsedAt, p, autoApproved⟩ with hsite
  have hput : Inside wallet (w.put site) := h.put fun s copy hcopy hid => by
    have hbelow := hn.copies s copy (copy_of_openCopy hcopy)
    exact absurd hid (Nat.ne_of_lt hbelow)
  have hstored : StoredSince (w.put site).moments site.origin (w.requests r).approvedAt (· = p) :=
    storedSince_last hput.last (hput.fine r).approved (Keyed.self_mem_upsert site w.sites) rfl
  have hlisted : Inside wallet ((w.put site).setStage r (.listing p)) := hput.leave rfl hstored
  exact { hlisted with }

/-! ### Edits -/

theorem Inside.edit (h : Inside wallet w) (hcovers : CoversOpen wallet w site.id p) :
    Inside wallet (w.edit site p) := by
  have htaken : Inside wallet ((w.takeBack site.id p).giveBack site.id p.Grants) := { h.restale _ with }
  exact htaken.put fun s copy hcopy => hcovers s copy hcopy

theorem Inside.removeAccounts (h : Inside wallet w) {accounts : List String}
    (hcovers : CoversOpen wallet w site.id (withoutAccounts site.permissions accounts)) :
    Inside wallet (w.removeAccounts r site accounts) := by
  simp only [BridgeState.removeAccounts]
  split
  · exact (h.delete site.id).leave rfl trivial
  · have htaken : Inside wallet (w.takeBack site.id (withoutAccounts site.permissions accounts)) :=
      { h.restale _ with }
    exact Inside.leave (htaken.put fun s copy hcopy => hcovers s copy hcopy) rfl trivial

/-! ### Runs -/

theorem inside_start (saved : Saved) (autoApprove : String → Bool) :
    Inside wallet (start saved autoApprove) where
  last := rfl
  fine := fun _ => fine_of_new Nat.one_pos Nat.one_pos rfl rfl trivial

/-- **A step** that writes nothing less than what is open keeps every answer inside the grant. -/
theorem Inside.step (h : Inside wallet w) (hn : Numbered w) {a : Act} (ha : Covering wallet w a)
    (hstep : step wallet w a = some w') : Inside wallet w' := by
  have hcopy : ∀ {r stage site}, (w.requests r).stage = stage → stage.copy = some site →
      site ∈ (w.requests r).stage.copy := fun hstage hsite => hstage ▸ hsite
  cases moves_of_step hstep with
  | arrive hstage horigin hstageNew hbegan happroved hanswers =>
    refine h.setRequest (fine_of_new (hbegan ▸ h.now_lt) (happroved ▸ h.now_lt) hanswers ?_ ?_)
    · rw [hstageNew]
      rfl
    · simp only [Request.Knows, hstageNew]
  | lookUp hstage => exact h.lookUp hn
  | readCurrent hstage => exact h.readCurrent
  | touchFound hstage => exact h.touchLastUsed hstage (ha _ (hcopy hstage rfl))
  | @touchStored r lastUsedAt site hstage =>
    have hcovers := ha site (hcopy hstage rfl)
    have hput : Inside wallet (w.put { site with lastUsedAt := lastUsedAt }) := h.put hcovers
    have hknows := (hput.fine r).knows
    rw [Request.Knows, show ((w.put { site with lastUsedAt := lastUsedAt }).requests r).stage = _ from hstage]
      at hknows
    exact hput.leave rfl hknows
  | ask hstage => exact h.ask hstage
  | useCache hstage => exact h.useCache hstage
  | approve hstage => exact h.approve hstage _
  | recheck hstage => exact h.assertGrantStillHeld hstage
  | sign hstage => exact h.sign hstage
  | save hstage hsave => exact h.updateSitePermissions hstage (ha _ (hcopy hstage rfl) _ hsave)
  | drop hstage => exact h.drop
  | @grant r p auto hstage =>
    exact h.setRequest ((h.fine r).goOut rfl rfl rfl h.now_lt rfl trivial)
  | lookAgain hstage => exact h.lookAgain hn
  | store hstage => exact h.store hn
  | @answerConnect r p hstage =>
    have hknows := (h.fine r).knows
    simp only [Request.Knows, hstage] at hknows
    have hwithin : Answer.Within wallet p (.accounts (accountRecordsFrom wallet p)) := fun a ha =>
      of_decide_eq_true (List.mem_filter.mp ha).2
    exact Inside.endConnect (h.setRequest ((h.fine r).answer (hknows.mono fun _ hp => hp ▸ hwithin))) true
  | refuse hstage =>
    refine h.next ?_
    rcases hstage with hstage | hstage | hstage | hstage
    all_goals rw [hstage]; rfl
  | fail hidle hfinished => exact h.endConnect false
  | delete => exact h.delete _
  | edit hsite hid => exact h.edit (hid ▸ ha)
  | startRemoval hstage hsite =>
    have hpos := Nat.zero_lt_of_lt h.now_lt
    exact h.setRequest (fine_of_new hpos hpos rfl rfl trivial)
  | removeAccounts hstage => exact h.removeAccounts (ha _ _ hstage)
  | setAutoApprove => exact { h with }

/-- **Answers stay inside the grant.** In a run in which no write of the store leaves out what an open request
of the site is about, every answer is inside the permissions that its origin had at some moment since the
approval. -/
theorem insideGrant_of_run {saved : Saved} {autoApprove : String → Bool} {as : List Act}
    (hguard : Transition.Under (Covering wallet) (step wallet) (start saved autoApprove) as)
    (hrun : run (step wallet) (start saved autoApprove) as = some w) : InsideGrant wallet w :=
  fun r => ((run_invariant_of_under (I := fun w => Inside wallet w ∧ Numbered w)
    (fun _ _ _ h ha hstep => ⟨h.1.step h.2 ha hstep, h.2.step hstep⟩)
    ⟨inside_start saved autoApprove, numbered_start saved autoApprove⟩ hguard hrun).1.fine r).answers

/-- A message is to be signed, and the user is asked. -/
private def askedToSign : List Act :=
  [.arrive 0 "https://dapp" (.signMessage "btc" "bc1q"), .lookUp 0, .touch 0 1, .ask 0]

private theorem isSome_askedToSign :
    (run (step oneAddress) (start oneSite fun _ => false)
      (askedToSign ++ [.approve 0 ⟨false, "", ""⟩, .recheck 0, .sign 0])).isSome := by
  decide

theorem insideGrant_askedToSign :
    InsideGrant oneAddress ((run (step oneAddress) (start oneSite fun _ => false)
      (askedToSign ++ [.approve 0 ⟨false, "", ""⟩, .recheck 0, .sign 0])).get isSome_askedToSign) := by
  have hguard : Transition.Under (Covering oneAddress) (step oneAddress) (start oneSite fun _ => false)
      (askedToSign ++ [.approve 0 ⟨false, "", ""⟩, .recheck 0, .sign 0]) := by
    refine .cons trivial rfl (.cons trivial rfl (.cons ?_ rfl (.cons trivial rfl ?_)))
    · -- the one copy that is open is the one that is written
      rintro site hsite s copy hcopy - request - answer - hwithin
      obtain ⟨⟩ := hsite
      cases s with
      | zero =>
        obtain ⟨⟩ := hcopy
        exact hwithin
      | succ s =>
        have hnone : none = some copy := hcopy
        cases hnone
    · exact .cons trivial rfl (.cons trivial rfl (.cons trivial rfl trivial))
  exact insideGrant_of_run hguard (Option.some_get _).symm

/-- The user takes the chain out of the grant while a message on it is shown, and approves. -/
private def narrowedDuringPrompt : List Act :=
  askedToSign ++ [.edit 0 ⟨["ltc"], ["main"], false, fun _ => none⟩, .approve 0 ⟨false, "", ""⟩,
    .recheck 0, .sign 0]

theorem not_insideGrant_of_run :
    ¬∀ (wallet : Wallet) (saved : Saved) (autoApprove : String → Bool) (as : List Act) (w : BridgeState),
      run (step wallet) (start saved autoApprove) as = some w → InsideGrant wallet w := by
  intro h
  have hinside := h oneAddress oneSite (fun _ => false) narrowedDuringPrompt _ rfl
  obtain ⟨t, ht, sites, hsites, site, hsite, -, hchain, -⟩ :=
    hinside 0 (2, .signature "btc" "bc1q") (List.mem_singleton_self _)
  match t, ht, hsites with
  | 2, _, hsites =>
    obtain ⟨⟩ := hsites
    obtain rfl := List.mem_singleton.mp hsite
    revert hchain
    decide
  | t + 3, _, hsites => cases hsites

end XchainWallet.Bridge
