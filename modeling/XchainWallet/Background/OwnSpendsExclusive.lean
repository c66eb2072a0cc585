import XchainWallet.Background.OwnSpends

/-!
# No coin is spent twice

Two claims over one coin are of one send (`OwnSpendLedger.Exclusive`), as long as a queued send
that goes out holds no coin that a live claim of another send has. A claim is refused over every
coin that is kept or held, until `holdMs` after the call (`OwnSpendLedger.Reserved`): entries
leave the ledger only when they have expired or by a release of their own claim, and what keeps
them anew only moves their end further away.
-/

namespace XchainWallet

open Transition

namespace OwnSpendLedger

variable {holdMs : ℤ} {s t : OwnSpendLedger} {a : SpendAct}

/-! ### Sends -/

/-- Two claims are of one send: they are the same, or have gone under one txid. -/
def SameSend (s : OwnSpendLedger) (c d : ClaimId) : Prop :=
  c = d ∨ ∃ txid, (c, txid) ∈ s.names ∧ (d, txid) ∈ s.names

/-- No coin is held by two live claims of different sends. -/
def Exclusive (s : OwnSpendLedger) : Prop :=
  ∀ e ∈ s.held, ∀ f ∈ s.held, s.now < e.until' → s.now < f.until' → e.key = f.key →
    s.SameSend e.claim f.claim

/-- A queued send that goes out holds no coin that a live claim of another send has. -/
def HoldsOwn (s : OwnSpendLedger) (a : SpendAct) : Prop :=
  ∀ chainId outpoints txid, a = .hold chainId outpoints txid →
    ∀ e ∈ s.held, s.now < e.until' → e.key ∈ outpoints.map (keyOf chainId) →
      txidKey txid ≠ "" ∧ (e.claim, txidKey txid) ∈ s.names

/-- What was loaded from the store: the claims of an earlier ledger, which was exclusive too. -/
structure Loads (now : ℤ) (loaded : List OwnSpend) : Prop where
  pairs : ∀ e ∈ loaded, ∀ f ∈ loaded, e.key = f.key → (start now loaded).SameSend e.claim f.claim
  earlier : ∀ e ∈ loaded, e.claim.time < now

theorem SameSend.mono {c d : ClaimId} (h : s.SameSend c d) (hnames : s.names ⊆ t.names) :
    t.SameSend c d :=
  h.imp_right fun ⟨txid, hc, hd⟩ => ⟨txid, hnames hc, hnames hd⟩

theorem SameSend.symm {c d : ClaimId} (h : s.SameSend c d) : s.SameSend d c :=
  h.elim (fun h => .inl h.symm) fun ⟨txid, hc, hd⟩ => .inr ⟨txid, hd, hc⟩

/-! ### Books -/

/-- The books of the ledger: entries carry txids that their claim has gone under, and the ids in
use are older than the next one. -/
structure Booked (origin : ℤ) (s : OwnSpendLedger) : Prop where
  origin_le : origin ≤ s.now
  named : ∀ e ∈ s.held, ∀ txid, e.txid = some txid → (e.claim, txid) ∈ s.names
  held_old : ∀ e ∈ s.held, e.claim.time < origin ∨ e.claim.number ≤ s.nextClaim
  names_old : ∀ entry ∈ s.names, entry.1.time < origin ∨ entry.1.number ≤ s.nextClaim

variable {origin : ℤ}

/-- The next id is not in use. -/
theorem Booked.fresh (h : s.Booked origin) {e : OwnSpend} (he : e ∈ s.held) :
    e.claim ≠ ⟨s.now, s.nextClaim + 1⟩ := by
  intro hclaim
  have hle := h.origin_le
  rcases h.held_old e he with hold | hold
  · rw [hclaim] at hold
    dsimp only at hold
    omega
  · rw [hclaim] at hold
    dsimp only at hold
    omega

theorem Booked.start {now : ℤ} {loaded : List OwnSpend} (h : ∀ e ∈ loaded, e.claim.time < now) :
    (start now loaded).Booked now where
  origin_le := Int.le_refl _
  named := by
    intro e he txid htxid
    refine List.mem_flatMap.mpr ⟨e, he, ?_⟩
    simp [htxid]
  held_old := fun e he => .inl (h e he)
  names_old := by
    intro entry hentry
    obtain ⟨e, he, hmem⟩ := List.mem_flatMap.mp hentry
    obtain ⟨txid, -, rfl⟩ := List.mem_map.mp hmem
    exact .inl (h e he)

/-- Entries may leave the ledger. -/
theorem Booked.sublist (h : s.Booked origin) {held : List OwnSpend} (hsub : held ⊆ s.held) :
    Booked origin { s with held := held } where
  origin_le := h.origin_le
  named := fun e he => h.named e (hsub he)
  held_old := fun e he => h.held_old e (hsub he)
  names_old := h.names_old

theorem purge_subset (s : OwnSpendLedger) : s.purge.held ⊆ s.held := fun _ he => (mem_purge.mp he).1

theorem Booked.purge (h : s.Booked origin) : s.purge.Booked origin := h.sublist s.purge_subset

variable {keys : List String} {sent : Option String}

variable {name : String}

theorem names_add (s : OwnSpendLedger) : s.names ⊆ (s.add holdMs keys sent name).names :=
  List.subset_append_left ..

theorem name_mem_add (s : OwnSpendLedger) (hname : name ≠ "") :
    (⟨s.now, s.nextClaim + 1⟩, name) ∈ (s.add holdMs keys sent name).names := by
  refine List.mem_append_right _ ?_
  rw [if_neg hname]
  exact (.head _)

theorem Booked.add (h : s.Booked origin)
    (hsent : ∀ txid, sent = some txid → txid = name ∧ name ≠ "") :
    (s.add holdMs keys sent name).Booked origin where
  origin_le := h.origin_le
  named := by
    intro e he txid htxid
    rcases mem_add.mp he with he | ⟨-, he⟩
    · exact s.names_add (h.named e he txid htxid)
    · rw [he] at htxid ⊢
      obtain ⟨rfl, hname⟩ := hsent txid htxid
      exact s.name_mem_add hname
  held_old := by
    intro e he
    rcases mem_add.mp he with he | ⟨-, he⟩
    · exact (h.held_old e he).imp_right fun hle => Nat.le_succ_of_le hle
    · rw [he]
      exact .inr (Nat.le_refl _)
  names_old := by
    intro entry hentry
    rcases List.mem_append.mp hentry with hentry | hentry
    · exact (h.names_old entry hentry).imp_right fun hle => Nat.le_succ_of_le hle
    · split at hentry
      · cases hentry
      · rw [List.mem_singleton.mp hentry]
        exact .inr (Nat.le_refl _)

theorem mem_keep {claim : ClaimId} {txid : String} {e : OwnSpend}
    (he : e ∈ (s.keep holdMs claim txid).held) :
    ∃ f ∈ s.held, e.key = f.key ∧ e.claim = f.claim ∧
      (e.txid = f.txid ∨ f.claim = claim ∧ txidKey txid ≠ "" ∧ e.txid = some (txidKey txid)) := by
  obtain ⟨f, hf, rfl⟩ := List.mem_map.mp he
  refine ⟨f, hf, ?_⟩
  by_cases hclaim : f.claim = claim
  · rw [if_pos hclaim]
    refine ⟨rfl, rfl, ?_⟩
    rw [OwnSpend.kept_txid]
    by_cases hsent : txidKey txid = ""
    · rw [if_pos hsent]
      exact .inl rfl
    · rw [if_neg hsent]
      exact .inr ⟨hclaim, hsent, rfl⟩
  · rw [if_neg hclaim]
    exact ⟨rfl, rfl, .inl rfl⟩

theorem Booked.keep (h : s.Booked origin) (claim : ClaimId) (txid : String) :
    (s.keep holdMs claim txid).Booked origin where
  origin_le := h.origin_le
  named := by
    intro e he txid' htxid'
    obtain ⟨f, hf, -, hclaim, hold | ⟨hof, hsent, hnew⟩⟩ := mem_keep he
    · exact List.mem_append_left _ (hclaim ▸ h.named f hf txid' (hold ▸ htxid'))
    · rw [hnew] at htxid'
      obtain rfl := Option.some.inj htxid'
      refine List.mem_append_right _ ?_
      rw [if_neg, hclaim, hof]
      · exact (.head _)
      · exact not_or.mpr ⟨hsent, fun hnone => hnone f hf hof⟩
  held_old := by
    intro e he
    obtain ⟨f, hf, -, hclaim, -⟩ := mem_keep he
    exact hclaim ▸ h.held_old f hf
  names_old := by
    intro entry hentry
    rcases List.mem_append.mp hentry with hentry | hentry
    · exact h.names_old entry hentry
    · split at hentry
      · cases hentry
      · next hnot =>
        obtain ⟨f, hf, hof⟩ : ∃ f ∈ s.held, f.claim = claim := by
          by_contra hnone
          exact hnot (.inr fun f hf hof => hnone ⟨f, hf, hof⟩)
        rw [List.mem_singleton.mp hentry]
        exact hof ▸ h.held_old f hf

private theorem sent_eq {txid : String} (txid' : String)
    (h : (if txidKey txid = "" then none else some (txidKey txid)) = some txid') :
    txid' = txidKey txid ∧ txidKey txid ≠ "" := by
  split at h
  · cases h
  · next hne => exact ⟨(Option.some.inj h).symm, hne⟩

/-- Every call keeps the books. -/
theorem Booked.step (h : s.Booked origin) (hstep : s.step holdMs a = some t) : t.Booked origin := by
  cases a with
  | clock now =>
    rw [OwnSpendLedger.step] at hstep
    split at hstep
    · next hnow =>
      obtain ⟨⟩ := hstep
      exact ⟨Int.le_trans h.origin_le hnow, h.named, h.held_old, h.names_old⟩
    · cases hstep
  | claim call =>
    obtain ⟨⟩ := hstep
    rcases claim_cases holdMs s call with ⟨hclaim, -⟩ | ⟨hclaim, -⟩ | ⟨hclaim, -⟩
    · rw [hclaim]
      exact h
    · rw [hclaim]
      exact h.purge
    · rw [hclaim]
      exact h.purge.add nofun
  | keep claim txid =>
    obtain ⟨⟩ := hstep
    exact h.keep claim txid
  | hold chainId outpoints txid =>
    obtain ⟨⟩ := hstep
    rw [OwnSpendLedger.hold]
    split
    · exact h
    · exact h.purge.add fun txid' htxid' => sent_eq txid' htxid'
  | release claim =>
    obtain ⟨⟩ := hstep
    exact h.sublist List.filter_sublist.subset

/-! ### Exclusion -/

/-- Two entries over one coin are of one send, expired or not: a claim purges before it looks. -/
def Paired (s : OwnSpendLedger) : Prop :=
  ∀ e ∈ s.held, ∀ f ∈ s.held, e.key = f.key → s.SameSend e.claim f.claim

theorem Paired.exclusive (h : s.Paired) : s.Exclusive := fun e he f hf _ _ hkey => h e he f hf hkey

theorem Paired.sublist (h : s.Paired) {held : List OwnSpend} (hsub : held ⊆ s.held) :
    Paired { s with held := held } :=
  fun e he f hf hkey => h e (hsub he) f (hsub hf) hkey

/-- A new claim over keys that only claims of its own send have. -/
theorem Paired.add (h : s.Paired)
    (hown : ∀ e ∈ s.held, e.key ∈ keys → name ≠ "" ∧ (e.claim, name) ∈ s.names) :
    (s.add holdMs keys sent name).Paired := by
  have hcross : ∀ e ∈ s.held, e.key ∈ keys →
      (s.add holdMs keys sent name).SameSend e.claim ⟨s.now, s.nextClaim + 1⟩ := by
    intro e he hkey
    obtain ⟨hname, hmem⟩ := hown e he hkey
    exact .inr ⟨name, s.names_add hmem, s.name_mem_add hname⟩
  intro e he f hf hkey
  rcases mem_add.mp he with he | ⟨hekey, he⟩
  · rcases mem_add.mp hf with hf | ⟨hfkey, hf⟩
    · exact (h e he f hf hkey).mono s.names_add
    · rw [hf]
      exact hcross e he (hkey ▸ hfkey)
  · rcases mem_add.mp hf with hf | ⟨hfkey, hf⟩
    · rw [he]
      exact (hcross f hf (hkey ▸ hekey)).symm
    · rw [he, hf]
      exact .inl rfl

/-- Only the claims of a send have the keys that it takes. -/
theorem own_of_not_taken (h : s.Booked origin) {same : String}
    (hfree : ∀ key ∈ keys, key ∉ s.taken same) {e : OwnSpend} (he : e ∈ s.held)
    (hkey : e.key ∈ keys) : same ≠ "" ∧ (e.claim, same) ∈ s.names := by
  have hpass : ¬(same = "" ∨ e.txid ≠ some same) :=
    fun hstands => hfree e.key hkey (mem_taken.mpr ⟨e, he, hstands, rfl⟩)
  obtain ⟨hsame, htxid⟩ := not_or.mp hpass
  exact ⟨hsame, h.named e he same (not_not.mp htxid)⟩

/-- Every call keeps the ledger exclusive, a hold over the coins of another send apart. -/
theorem Paired.step (h : s.Paired) (hbooked : s.Booked origin) (hown : s.HoldsOwn a)
    (hstep : s.step holdMs a = some t) : t.Paired := by
  cases a with
  | clock now =>
    rw [OwnSpendLedger.step] at hstep
    split at hstep
    · obtain ⟨⟩ := hstep
      exact h
    · cases hstep
  | claim call =>
    obtain ⟨⟩ := hstep
    rcases claim_cases holdMs s call with ⟨hclaim, -⟩ | ⟨hclaim, -⟩ | ⟨hclaim, hfree, -⟩
    · rw [hclaim]
      exact h
    · rw [hclaim]
      exact h.sublist s.purge_subset
    · rw [hclaim]
      refine Paired.add (h.sublist s.purge_subset) fun e he hkey => ?_
      exact own_of_not_taken hbooked.purge hfree he hkey
  | keep claim txid =>
    obtain ⟨⟩ := hstep
    intro e he f hf hkey
    obtain ⟨e', he', hekey, heclaim, -⟩ := mem_keep he
    obtain ⟨f', hf', hfkey, hfclaim, -⟩ := mem_keep hf
    have hpair := h e' he' f' hf' (hekey.symm.trans (hkey.trans hfkey))
    rw [heclaim, hfclaim]
    exact hpair.mono (List.subset_append_left ..)
  | hold chainId outpoints txid =>
    obtain ⟨⟩ := hstep
    rw [OwnSpendLedger.hold]
    split
    · exact h
    · refine Paired.add (h.sublist s.purge_subset) fun e he hkey => ?_
      obtain ⟨hmem, hlive⟩ := mem_purge.mp he
      exact hown chainId outpoints txid rfl e hmem hlive hkey
  | release claim =>
    obtain ⟨⟩ := hstep
    exact h.sublist List.filter_sublist.subset

/-! ### Reservation -/

/-- The claim has the coin at least until the given time. -/
def Holds (s : OwnSpendLedger) (claim : ClaimId) (key : String) (until' : ℤ) : Prop :=
  ∃ e ∈ s.held, e.claim = claim ∧ e.key = key ∧ until' ≤ e.until'

/-- From the ledger on, until the given time, the coin is refused to every claim of another send,
unless the claim that has it is released. -/
def Reserved (holdMs : ℤ) (s : OwnSpendLedger) (claim : ClaimId) (key : String)
    (until' : ℤ) : Prop :=
  ∀ acts t call, run (step holdMs) s acts = some t →
    (∀ act ∈ acts, act ≠ .release claim) → t.now < until' → key ∈ call.keys →
    (txidKey call.txid = "" ∨ (claim, txidKey call.txid) ∉ t.names) →
    ∀ id, (t.claim holdMs call).1 ≠ .claimed id

theorem now_le_step (hstep : s.step holdMs a = some t) : s.now ≤ t.now := by
  cases a with
  | clock now =>
    rw [step] at hstep
    split at hstep
    · next hnow => exact Option.some.inj hstep ▸ hnow
    · cases hstep
  | claim call =>
    obtain ⟨⟩ := hstep
    rcases claim_cases holdMs s call with ⟨hclaim, -⟩ | ⟨hclaim, -⟩ | ⟨hclaim, -⟩
    · rw [hclaim]
    · rw [hclaim]
      exact Int.le_refl _
    · rw [hclaim]
      exact Int.le_refl _
  | keep claim txid | release claim => exact Option.some.inj hstep ▸ Int.le_refl _
  | hold chainId outpoints txid =>
    obtain ⟨⟩ := hstep
    rw [hold]
    split
    · exact Int.le_refl _
    · exact Int.le_refl _

variable {claim : ClaimId} {key : String} {until' : ℤ}

theorem Holds.purge (h : s.Holds claim key until') (hnow : s.now < until') :
    s.purge.Holds claim key until' := by
  obtain ⟨e, he, hclaim, hkey, huntil⟩ := h
  exact ⟨e, mem_purge.mpr ⟨he, Int.lt_of_lt_of_le hnow huntil⟩, hclaim, hkey, huntil⟩

theorem Holds.add (h : s.Holds claim key until') :
    (s.add holdMs keys sent name).Holds claim key until' := by
  obtain ⟨e, he, hrest⟩ := h
  exact ⟨e, mem_add.mpr (.inl he), hrest⟩

/-- An entry that has not expired stays, unless its own claim is released. -/
theorem Holds.step (h : s.Holds claim key until') (hnow : s.now < until')
    (hbound : until' ≤ s.now + holdMs) (hrelease : a ≠ .release claim)
    (hstep : s.step holdMs a = some t) : t.Holds claim key until' := by
  cases a with
  | clock now =>
    rw [OwnSpendLedger.step] at hstep
    split at hstep
    · obtain ⟨⟩ := hstep
      exact h
    · cases hstep
  | claim call =>
    obtain ⟨⟩ := hstep
    rcases claim_cases holdMs s call with ⟨hclaim, -⟩ | ⟨hclaim, -⟩ | ⟨hclaim, -⟩
    · rw [hclaim]
      exact h
    · rw [hclaim]
      exact h.purge hnow
    · rw [hclaim]
      exact (h.purge hnow).add
  | keep kept txid =>
    obtain ⟨⟩ := hstep
    obtain ⟨e, he, hclaim, hkey, huntil⟩ := h
    refine ⟨_, List.mem_map_of_mem he, ?_⟩
    -- a keep of the claim itself moves its end away
    by_cases hkept : e.claim = kept
    · rw [if_pos hkept]
      exact ⟨hclaim, hkey, hbound⟩
    · rw [if_neg hkept]
      exact ⟨hclaim, hkey, huntil⟩
  | hold chainId outpoints txid =>
    obtain ⟨⟩ := hstep
    rw [OwnSpendLedger.hold]
    split
    · exact h
    · exact (h.purge hnow).add
  | release released =>
    obtain ⟨⟩ := hstep
    obtain ⟨e, he, hclaim, hrest⟩ := h
    refine ⟨e, List.mem_filter.mpr ⟨he, decide_eq_true ?_⟩, hclaim, hrest⟩
    rw [hclaim]
    exact fun hreleased => hrelease (hreleased ▸ rfl)

/-- What a claim holds is refused to every other send. -/
theorem Holds.refuses (h : s.Holds claim key until') (hbooked : s.Booked origin)
    (hnow : s.now < until') {call : ClaimCall} (hkey : key ∈ call.keys)
    (hother : txidKey call.txid = "" ∨ (claim, txidKey call.txid) ∉ s.names) (id : ClaimId) :
    (s.claim holdMs call).1 ≠ .claimed id := by
  rcases claim_cases holdMs s call with ⟨-, hnone⟩ | ⟨-, hrefused⟩ | ⟨-, hfree, -⟩
  · rw [hnone] at hkey
    cases hkey
  · exact hrefused id
  · obtain ⟨e, he, hclaim, hekey, -⟩ := h.purge hnow
    obtain ⟨hsame, hmem⟩ := own_of_not_taken hbooked.purge hfree he (hekey ▸ hkey)
    rcases hother with hother | hother
    · exact absurd hother hsame
    · exact absurd (hclaim ▸ hmem) hother

theorem Holds.reserved (h : s.Holds claim key until') (hbooked : s.Booked origin)
    (hbound : until' ≤ s.now + holdMs) : s.Reserved holdMs claim key until' := by
  intro acts
  induction acts generalizing s with
  | nil =>
    intro t call hrun _ hnow hkey hother
    obtain rfl := Option.some.inj hrun
    exact h.refuses hbooked hnow hkey hother
  | cons a acts ih =>
    intro t call hrun hrelease hnow
    obtain ⟨u, hstep, hrest⟩ := run_cons_eq_some.mp hrun
    have hsu := now_le_step hstep
    have hut : u.now ≤ t.now := run_rel (R := fun s t => s.now ≤ t.now)
      (fun _ => Int.le_refl _) (fun _ _ _ => Int.le_trans) (fun _ _ _ => now_le_step) hrest
    refine ih (h.step (by omega) hbound (hrelease a (.head _)) hstep)
      (hbooked.step hstep) (by omega) t call hrest ?_ hnow
    exact fun act hact => hrelease act (.tail _ hact)

/-! ### Runs -/

/-- **No coin is spent twice.** Whatever the calls: while a queued send that goes out holds no coin
that a live claim of another send has, no coin is under two live claims of different sends. A
claim takes neither a coin that is queued nor one that a live claim of another send has, and its
id is new. What an entry in the ledger has when its send is kept, and every coin of a queued send
that goes out, is refused to every other send until `holdMs` after the call, unless the send's
own claim is released. -/
theorem own_spends_exclusive (holdMs now : ℤ) (loaded : List OwnSpend) (acts : List SpendAct)
    (hloads : Loads now loaded) :
    (Transition.Under HoldsOwn (step holdMs) (start now loaded) acts →
      Transition.Throughout Exclusive (step holdMs) (start now loaded) acts) ∧
      ∀ s, run (step holdMs) (start now loaded) acts = some s →
        (∀ call id, (s.claim holdMs call).1 = .claimed id →
          (∀ o ∈ call.outpoints, o ∉ call.queued) ∧ (∀ e ∈ s.held, e.claim ≠ id) ∧
            ∀ e ∈ s.held, s.now < e.until' → e.key ∈ call.keys →
              txidKey call.txid ≠ "" ∧ (e.claim, txidKey call.txid) ∈ s.names) ∧
        (∀ e ∈ s.held, ∀ txid,
          (s.keep holdMs e.claim txid).Reserved holdMs e.claim e.key (s.now + holdMs)) ∧
        ∀ chainId outpoints txid, ∀ o ∈ outpoints,
          (s.hold holdMs chainId outpoints txid).Reserved holdMs ⟨s.now, s.nextClaim + 1⟩
            (keyOf chainId o) (s.now + holdMs) := by
  have hstart : (start now loaded).Booked now := Booked.start hloads.earlier
  refine ⟨fun hown => ?_, fun s hrun => ?_⟩
  · have hsound := throughout_of_under (P := fun s => s.Booked now ∧ s.Paired)
      (fun _ _ _ hs hG hstep => ⟨hs.1.step hstep, hs.2.step hs.1 hG hstep⟩)
      ⟨hstart, hloads.pairs⟩ hown
    exact hsound.mono fun _ hs => hs.2.exclusive
  · have hbooked : s.Booked now :=
      run_invariant (fun _ _ _ hs hstep => hs.step hstep) hstart hrun
    refine ⟨fun call id hid => ?_, fun e he txid => ?_, fun chainId outpoints txid o ho => ?_⟩
    · rcases claim_cases holdMs s call with ⟨hclaim, -⟩ | ⟨-, hrefused⟩ | ⟨hclaim, hfree, hqueued⟩
      · rw [hclaim] at hid
        cases hid
      · exact absurd hid (hrefused id)
      · rw [hclaim] at hid
        obtain rfl := ClaimAnswer.claimed.inj hid
        refine ⟨hqueued, fun e he => hbooked.fresh he, fun e he hlive hkey => ?_⟩
        exact own_of_not_taken hbooked.purge hfree (mem_purge.mpr ⟨he, hlive⟩) hkey
    · have hholds : (s.keep holdMs e.claim txid).Holds e.claim e.key (s.now + holdMs) := by
        refine ⟨_, List.mem_map_of_mem he, ?_⟩
        rw [if_pos rfl]
        exact ⟨rfl, rfl, Int.le_refl _⟩
      exact hholds.reserved (hbooked.keep e.claim txid) (Int.le_refl _)
    · have hne : outpoints ≠ [] := List.ne_nil_of_mem ho
      have hholds : (s.hold holdMs chainId outpoints txid).Holds ⟨s.now, s.nextClaim + 1⟩
          (keyOf chainId o) (s.now + holdMs) := by
        rw [OwnSpendLedger.hold, if_neg hne]
        exact ⟨⟨keyOf chainId o, ⟨s.now, s.nextClaim + 1⟩, s.now + holdMs, _⟩,
          mem_add.mpr (.inr ⟨List.mem_map_of_mem ho, rfl⟩), rfl, rfl, Int.le_refl _⟩
      have hnow : (s.hold holdMs chainId outpoints txid).now = s.now := by
        rw [OwnSpendLedger.hold, if_neg hne]
        rfl
      have hstep : s.step holdMs (.hold chainId outpoints txid) =
          some (s.hold holdMs chainId outpoints txid) := rfl
      refine hholds.reserved (hbooked.step hstep) ?_
      rw [hnow]

/-- A send that spends one coin. -/
def sampleClaim : ClaimCall := ⟨"btc", [⟨"AA", 0⟩], [], "", []⟩

/-- The coin of a send that went out is reserved for half an hour. -/
theorem kept_coin_is_reserved :
    Transition.Throughout Exclusive (step 1800000) (start 0 [])
        [.claim sampleClaim, .keep ⟨0, 1⟩ "T"] ∧
      (((start 0 []).claim 1800000 sampleClaim).2.keep 1800000 ⟨0, 1⟩ "T").Reserved 1800000
        ⟨0, 1⟩ "btc|aa:0" 1800000 := by
  have hloads : Loads 0 [] := ⟨nofun, nofun⟩
  constructor
  · refine (own_spends_exclusive 1800000 0 [] _ hloads).1 ?_
    exact .cons nofun rfl (.cons nofun rfl trivial)
  · have hentry : (⟨"btc|aa:0", ⟨0, 1⟩, 1800000, none⟩ : OwnSpend) ∈
        ((start 0 []).claim 1800000 sampleClaim).2.held := by
      decide
    have hreserved := ((own_spends_exclusive 1800000 0 [] [.claim sampleClaim] hloads).2 _ rfl).2.1
      _ hentry "T"
    have hnow : ((start 0 []).claim 1800000 sampleClaim).2.now = 0 := by decide
    rw [hnow] at hreserved
    exact hreserved

/-- A queued send goes out over the coin of a live claim: two sends hold it. -/
theorem hold_over_a_live_claim :
    ∃ s, run (step 1800000) (start 0 [])
        [.claim sampleClaim, .hold "btc" [⟨"AA", 0⟩] "T"] = some s ∧ ¬s.Exclusive := by
  have hrun : run (step 1800000) (start 0 [])
      [.claim sampleClaim, .hold "btc" [⟨"AA", 0⟩] "T"] =
      some ⟨0, [⟨"btc|aa:0", ⟨0, 1⟩, 1800000, none⟩, ⟨"btc|aa:0", ⟨0, 2⟩, 1800000, some "t"⟩], 2,
        [(⟨0, 2⟩, "t")]⟩ := by
    decide
  refine ⟨_, hrun, fun hexclusive => ?_⟩
  have hsame := hexclusive ⟨"btc|aa:0", ⟨0, 1⟩, 1800000, none⟩ List.mem_cons_self
    ⟨"btc|aa:0", ⟨0, 2⟩, 1800000, some "t"⟩ (List.mem_cons_of_mem _ List.mem_cons_self)
    (by decide) (by decide) rfl
  rcases hsame with hsame | ⟨txid, hfirst, -⟩
  · exact absurd hsame (by decide)
  · simp at hfirst

end OwnSpendLedger

end XchainWallet
