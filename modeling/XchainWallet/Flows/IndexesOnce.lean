import XchainWallet.Flows.AddressIndexes
import XchainWallet.Keyed.List

/-!
# Each index once

Two stored addresses clash when they are derived at one index of one branch in one index space: then
one key stands behind both. Receive addresses never clash, whatever runs beside them, since the calls
that give them out take turns and nothing else stores addresses of their branch. Change addresses do:
two rotations that both read the addresses before either has stored its own pick the same index.
`rotations_apart_keep_indexes` says that this is the only way.
-/

namespace XchainWallet

open IndexWorld
open Option (bind_eq_some_iff map_eq_some_iff some.inj)

variable {setup : IndexSetup}

/-! ### Spaces -/

namespace IndexSetup

theorem SameSpace.symm {s t : IndexSpace} (h : setup.SameSpace s t) : setup.SameSpace t s := by
  obtain ⟨haccount, hcoin, hnetwork, htype⟩ := h
  refine ⟨haccount.symm, hcoin.symm, hnetwork.symm, ?_⟩
  rw [← haccount]
  exact htype.imp_right Eq.symm

/-- The account of an id is the one that has it. -/
theorem account_eq_some {account : IndexAccount} (h : account ∈ setup.accounts) :
    setup.account account.id = some account := by
  have hdistinct : Keyed.Distinct IndexAccount.id setup.accounts := setup.distinct
  exact (Keyed.find_eq_some hdistinct).mpr ⟨h, rfl⟩

/-- Whether the types share a space is read off the account's wallet. -/
theorem sharesTypes_eq {account : IndexAccount} (h : account ∈ setup.accounts) :
    setup.sharesTypes account.id = setup.shared account.walletId := by
  rw [sharesTypes, account_eq_some h, Option.any_some]

end IndexSetup

/-- Two addresses are derived at one index of one branch in one index space. -/
def Clash (setup : IndexSetup) (a b : VaultAddress) : Prop :=
  a.source.isHd ∧ b.source.isHd ∧ setup.SameSpace a.space b.space ∧ a.pathEnd ≠ none ∧
    a.pathEnd = b.pathEnd

/-- **No key is given out twice**: no two of the stored addresses clash. -/
def IndexesOnce (setup : IndexSetup) (stored : List VaultAddress) : Prop :=
  stored.Pairwise fun a b => ¬Clash setup a b

/-- The filter of the flows is about the space, where the flag is the account's. -/
theorem inSpace_iff {space : IndexSpace} {a : VaultAddress} :
    inSpace space (setup.sharesTypes space.accountId) a ↔
      setup.SameSpace space a.space ∧ a.source.isHd := by
  rw [inSpace, decide_eq_true_iff, IndexSetup.SameSpace, VaultAddress.space]
  constructor
  · rintro ⟨haccount, hcoin, hnetwork, htype, hhd⟩
    exact ⟨⟨haccount.symm, hcoin.symm, hnetwork.symm, htype.imp_right Eq.symm⟩, hhd⟩
  · rintro ⟨⟨haccount, hcoin, hnetwork, htype⟩, hhd⟩
    exact ⟨haccount.symm, hcoin.symm, hnetwork.symm, htype.imp_right Eq.symm, hhd⟩

variable {stored : List VaultAddress}

/-- The held indices are those of the stored addresses in the space. -/
theorem mem_heldOn {branch index : ℕ} {space : IndexSpace} {a : VaultAddress} (ha : a ∈ stored)
    (hspace : setup.SameSpace space a.space) (hhd : a.source.isHd)
    (hend : a.pathEnd = some ⟨branch, index⟩) :
    index ∈ heldOn branch space (setup.sharesTypes space.accountId) stored := by
  rw [heldOn, List.mem_filterMap]
  refine ⟨a, List.mem_filter.mpr ⟨ha, inSpace_iff.mpr ⟨hspace, hhd⟩⟩, ?_⟩
  rw [hend, Option.bind_some, if_pos rfl]

theorem le_highestOf {held : List ℕ} {index : ℕ} (h : index ∈ held) :
    (index : ℤ) ≤ highestOf held := by
  have hfold : ∀ (held : List ℕ) (first : ℤ),
      let highest := held.foldl (fun (highest : ℤ) (index : ℕ) => max highest index) first
      first ≤ highest ∧ ∀ index ∈ held, (index : ℤ) ≤ highest := by
    intro held
    induction held with
    | nil => exact fun first => ⟨Int.le_refl first, by simp⟩
    | cons n held ih =>
      intro first
      obtain ⟨hfirst, hrest⟩ := ih (max first n)
      dsimp only [List.foldl_cons]
      rw [List.forall_mem_cons]
      exact ⟨by omega, by omega, hrest⟩
  exact (hfold held (-1)).2 index h

/-- The picked index is not held. -/
theorem pickIndex_not_mem {held : List ℕ} {sharedIndexSpace : Bool} {funding : ℕ → Option Bool}
    {fuel first index : ℕ} (h : pickIndex held sharedIndexSpace funding fuel first = some index) :
    index ∉ held := by
  induction fuel generalizing first with
  | zero => cases h
  | succ fuel ih =>
    rw [pickIndex] at h
    split at h
    · exact ih h
    · next hfree =>
      split at h
      · exact some.inj h ▸ hfree
      · exact ih h
      · split at h
        · cases h
        · split at h
          · exact some.inj h ▸ hfree
          · exact ih h

/-! ### What the calls under way rely on -/

/-- The space of a rotation that has read the addresses. -/
def ChangePc.space? : ChangePc → Option IndexSpace
  | .started _ => none
  | .listed plan => some plan.space
  | .storing record => some record.space

/-- The space of rotation `i`. -/
def IndexWorld.changeSpace (w : IndexWorld) (i : ℕ) : Option IndexSpace :=
  (w.changes i).bind ChangePc.space?

/-- A rotation reads the addresses only while no other one that has read them is under way in its
space. -/
def ReadsApart (setup : IndexSetup) (w : IndexWorld) (act : IndexAct) : Prop :=
  ∀ i opts space ticker, act = .changeList i → w.changes i = some (.started opts) →
    setup.changeSpace opts w.stored = some (space, ticker) →
      ∀ j other, w.changeSpace j = some other → ¬setup.SameSpace space other

/-- An address that may be stored: it is derived on the branch, and it clashes with no other. -/
structure FreshIndex (setup : IndexSetup) (stored : List VaultAddress) (branch : ℕ)
    (record : VaultAddress) : Prop where
  branch : ∃ index, record.pathEnd = some ⟨branch, index⟩
  noClash : ∀ a ∈ stored, ¬Clash setup a record

/-- All indices of the space that are held on the branch satisfy `P`. -/
def HeldSatisfy (setup : IndexSetup) (stored : List VaultAddress) (branch : ℕ) (space : IndexSpace)
    (P : ℕ → Prop) : Prop :=
  ∀ a ∈ stored, setup.SameSpace space a.space → a.source.isHd →
    ∀ index, a.pathEnd = some ⟨branch, index⟩ → P index

/-- **The invariant.** What a call has read still covers the stored addresses of its branch and
space, so that what it stores clashes with none of them; and no two rotations that have read the
addresses are under way in one space. -/
structure Allocating (setup : IndexSetup) (w : IndexWorld) : Prop where
  once : IndexesOnce setup w.stored
  listed : ∀ plan held, w.turn = some (.listed plan held) →
    (∀ index, plan.derivationIndex = some index → index ∉ held) ∧
      HeldSatisfy setup w.stored 0 plan.space (· ∈ held)
  storing : ∀ record, w.turn = some (.storing record) → FreshIndex setup w.stored 0 record
  changeListed : ∀ i plan, w.changes i = some (.listed plan) →
    HeldSatisfy setup w.stored CHANGE_BRANCH plan.space (· < plan.nextIndex)
  changeStoring : ∀ i record, w.changes i = some (.storing record) →
    FreshIndex setup w.stored CHANGE_BRANCH record
  apart : ∀ i j space other, i ≠ j → w.changeSpace i = some space → w.changeSpace j = some other →
    ¬setup.SameSpace space other

theorem Allocating.start (h : IndexesOnce setup stored) : Allocating setup (start stored) where
  once := h
  listed plan held hturn := by cases hturn
  storing record hturn := by cases hturn
  changeListed i plan hpc := by cases hpc
  changeStoring i record hpc := by cases hpc
  apart i j space other _ hspace := by cases hspace

/-- An address that clashes with none joins the stored ones. -/
theorem FreshIndex.once {branch : ℕ} {record : VaultAddress}
    (h : FreshIndex setup stored branch record) (honce : IndexesOnce setup stored) :
    IndexesOnce setup (stored ++ [record]) := by
  refine List.pairwise_append.mpr ⟨honce, List.pairwise_singleton _ _, fun a ha b hb => ?_⟩
  rw [List.mem_singleton.mp hb]
  exact h.noClash a ha

/-- An address on one branch leaves the held indices of another as they are. -/
theorem HeldSatisfy.append {branch other index : ℕ} {space : IndexSpace} {P : ℕ → Prop}
    {record : VaultAddress} (h : HeldSatisfy setup stored branch space P)
    (hend : record.pathEnd = some ⟨other, index⟩)
    (hapart : other ≠ branch ∨ ¬setup.SameSpace space record.space) :
    HeldSatisfy setup (stored ++ [record]) branch space P := by
  intro a ha hspace hhd n hn
  rcases List.mem_append.mp ha with ha | ha
  · exact h a ha hspace hhd n hn
  · rw [List.mem_singleton.mp ha] at hspace hn
    rcases hapart with hbranch | hother
    · rw [hend] at hn
      exact absurd (congrArg PathEnd.branch (some.inj hn)) hbranch
    · exact absurd hspace hother

/-- An address on one branch does not clash with one on another, nor with one of another space. -/
theorem FreshIndex.append {branch other index : ℕ} {record added : VaultAddress}
    (h : FreshIndex setup stored branch record) (hend : added.pathEnd = some ⟨other, index⟩)
    (hapart : other ≠ branch ∨ ¬setup.SameSpace added.space record.space) :
    FreshIndex setup (stored ++ [added]) branch record := by
  refine ⟨h.branch, fun a ha hclash => ?_⟩
  rcases List.mem_append.mp ha with ha | ha
  · exact h.noClash a ha hclash
  · rw [List.mem_singleton.mp ha] at hclash
    obtain ⟨-, -, hspace, -, hsame⟩ := hclash
    rcases hapart with hbranch | hother
    · obtain ⟨n, hn⟩ := h.branch
      rw [hend, hn] at hsame
      exact hbranch (congrArg PathEnd.branch (some.inj hsame))
    · exact hother hspace

/-! ### What a call takes from the addresses that it reads -/

theorem sharedIndexSpace_of_receivePlan {opts : ReceiveOpts} {plan : ReceivePlan}
    (h : setup.receivePlan opts = some plan) :
    plan.sharedIndexSpace = setup.sharesTypes plan.space.accountId := by
  rw [IndexSetup.receivePlan, bind_eq_some_iff] at h
  obtain ⟨chain, -, h⟩ := h
  dsimp only at h
  split at h
  · cases h
  · obtain ⟨account, haccount, rfl⟩ := map_eq_some_iff.mp h
    have hmem : account ∈ setup.accounts.filter (·.walletId = opts.walletId) := by
      rw [IndexSetup.receiveAccount] at haccount
      split at haccount
      · exact List.mem_of_find?_eq_some haccount
      · exact List.mem_of_find?_eq_some haccount
    obtain ⟨hin, hwallet⟩ := List.mem_filter.mp hmem
    rw [IndexSetup.sharesTypes_eq hin, of_decide_eq_true hwallet]

/-- A call that has read the addresses knows all indices that are held. -/
theorem listed_of_afterList {opts : ReceiveOpts} {plan : ReceivePlan} {held : List ℕ}
    (h : afterList setup stored opts = some (.listed plan held)) :
    (∀ index, plan.derivationIndex = some index → index ∉ held) ∧
      HeldSatisfy setup stored 0 plan.space (· ∈ held) := by
  rw [afterList, bind_eq_some_iff] at h
  obtain ⟨plan', hplan, h⟩ := h
  dsimp only at h
  split at h
  · cases h
  · next hfree =>
    cases h
    refine ⟨fun index hindex hmem => hfree ?_, fun a ha hspace hhd index hend => ?_⟩
    · rw [hindex, Option.any_some]
      exact decide_eq_true hmem
    · rw [sharedIndexSpace_of_receivePlan hplan]
      exact mem_heldOn ha hspace hhd hend

theorem afterList_ne_storing {opts : ReceiveOpts} {record : VaultAddress} :
    afterList setup stored opts ≠ some (.storing record) := by
  intro h
  rw [afterList, bind_eq_some_iff] at h
  obtain ⟨plan, -, h⟩ := h
  dsimp only at h
  split at h <;> cases h

/-- The target of a call is not held. -/
theorem target_not_mem {plan : ReceivePlan} {held : List ℕ} {funding : ℕ → Option Bool} {index : ℕ}
    (hfree : ∀ index, plan.derivationIndex = some index → index ∉ held)
    (h : plan.target held funding = some index) : index ∉ held := by
  rw [ReceivePlan.target] at h
  split at h
  · next requested hrequested => exact hfree index (hrequested.trans h)
  · exact pickIndex_not_mem h

/-- The next index of a rotation is beyond all that are held. -/
theorem held_lt_of_changePlan {opts : ChangeOpts} {plan : ChangePlan}
    (h : setup.changePlan opts stored = some plan) :
    HeldSatisfy setup stored CHANGE_BRANCH plan.space (· < plan.nextIndex) := by
  obtain ⟨⟨space, ticker⟩, hspace, rfl⟩ := map_eq_some_iff.mp h
  have hshared : setup.shared opts.walletId = setup.sharesTypes space.accountId := by
    simp only [IndexSetup.changeSpace, bind_eq_some_iff] at hspace
    obtain ⟨chain, -, source, -, account, haccount, h⟩ := hspace
    split at h
    · cases h
    · next hchecks =>
      cases h
      have hwallet : account.walletId = opts.walletId := by
        by_contra hne
        exact hchecks (.inr (.inr (.inl hne)))
      rw [IndexSetup.sharesTypes_eq (List.mem_of_find?_eq_some haccount), hwallet]
  intro a ha hsame hhd index hend
  have hheld : index ∈ heldOn CHANGE_BRANCH space (setup.sharesTypes space.accountId) stored :=
    mem_heldOn ha hsame hhd hend
  have hle := le_highestOf hheld
  dsimp only [nextChangeIndex]
  rw [hshared]
  omega

/-! ### One step -/

namespace Allocating

variable {w : IndexWorld}

/-- The call whose turn it is ends, or one begins. -/
theorem setTurn (h : Allocating setup w) {turn : Option ReceivePc} (queue : List ReceiveOpts)
    (hlisted : ∀ plan held, turn ≠ some (.listed plan held))
    (hstoring : ∀ record, turn ≠ some (.storing record)) :
    Allocating setup { w with turn, queue } where
  once := h.once
  listed plan held hturn := absurd hturn (hlisted plan held)
  storing record hturn := absurd hturn (hstoring record)
  changeListed := h.changeListed
  changeStoring := h.changeStoring
  apart := h.apart

/-- A rotation goes on with what it may rely on, or ends. -/
theorem setChange (h : Allocating setup w) {i : ℕ} {pc : Option ChangePc}
    (hlisted : ∀ plan, pc = some (.listed plan) →
      HeldSatisfy setup w.stored CHANGE_BRANCH plan.space (· < plan.nextIndex))
    (hstoring : ∀ record, pc = some (.storing record) → FreshIndex setup w.stored CHANGE_BRANCH record)
    (hspace : ∀ space, pc.bind ChangePc.space? = some space →
      ∀ j other, j ≠ i → w.changeSpace j = some other → ¬setup.SameSpace space other) :
    Allocating setup (w.setChange i pc) where
  once := h.once
  listed := h.listed
  storing := h.storing
  changeListed j plan hpc := by
    by_cases hj : j = i
    · rw [hj, changes_setChange_self] at hpc
      exact hlisted plan hpc
    · rw [changes_setChange_of_ne w pc hj] at hpc
      exact h.changeListed j plan hpc
  changeStoring j record hpc := by
    by_cases hj : j = i
    · rw [hj, changes_setChange_self] at hpc
      exact hstoring record hpc
    · rw [changes_setChange_of_ne w pc hj] at hpc
      exact h.changeStoring j record hpc
  apart j k space other hjk hj hk := by
    rw [changeSpace] at hj hk
    by_cases hji : j = i
    · have hki : k ≠ i := fun hki => hjk (hji.trans hki.symm)
      rw [hji, changes_setChange_self] at hj
      rw [changes_setChange_of_ne w pc hki] at hk
      exact hspace space hj k other hki hk
    · rw [changes_setChange_of_ne w pc hji] at hj
      by_cases hki : k = i
      · rw [hki, changes_setChange_self] at hk
        exact fun hsame => hspace other hk j space hji hj hsame.symm
      · rw [changes_setChange_of_ne w pc hki] at hk
        exact h.apart j k space other hjk hj hk

/-- A receive address is stored. -/
theorem receivePut (h : Allocating setup w) {record : VaultAddress}
    (hturn : w.turn = some (.storing record)) :
    Allocating setup { w with stored := w.stored ++ [record], turn := none } := by
  have hfresh := h.storing record hturn
  obtain ⟨index, hend⟩ := hfresh.branch
  exact {
    once := hfresh.once h.once
    listed := fun plan held hnone => by cases hnone
    storing := fun record hnone => by cases hnone
    changeListed := fun i plan hpc => (h.changeListed i plan hpc).append hend (.inl (by decide))
    changeStoring := fun i other hpc => (h.changeStoring i other hpc).append hend (.inl (by decide))
    apart := h.apart }

/-- A change address is stored. -/
theorem changePut (h : Allocating setup w) {i : ℕ} {record : VaultAddress}
    (hpc : w.changes i = some (.storing record)) :
    Allocating setup ({ w with stored := w.stored ++ [record] }.setChange i none) := by
  have hfresh := h.changeStoring i record hpc
  obtain ⟨index, hend⟩ := hfresh.branch
  have hown : w.changeSpace i = some record.space := by
    rw [changeSpace, hpc]
    rfl
  have hkeeps : ∀ j, ({ w with stored := w.stored ++ [record] }.setChange i none).changes j =
      if j = i then none else w.changes j := by
    intro j
    split
    · next hj => rw [hj, changes_setChange_self]
    · next hj => rw [changes_setChange_of_ne _ none hj]
  refine {
    once := hfresh.once h.once
    listed := fun plan held hturn => ⟨(h.listed plan held hturn).1,
      (h.listed plan held hturn).2.append hend (.inl (by decide))⟩
    storing := fun other hturn => (h.storing other hturn).append hend (.inl (by decide))
    changeListed := fun j plan hj => ?_
    changeStoring := fun j other hj => ?_
    apart := fun j k space other hjk hj hk => ?_ }
  · rw [hkeeps] at hj
    split at hj
    · cases hj
    · next hne =>
      have hspace : w.changeSpace j = some plan.space := by
        rw [changeSpace, hj]
        rfl
      exact (h.changeListed j plan hj).append hend (.inr (h.apart j i _ _ hne hspace hown))
  · rw [hkeeps] at hj
    split at hj
    · cases hj
    · next hne =>
      have hspace : w.changeSpace j = some other.space := by
        rw [changeSpace, hj]
        rfl
      exact (h.changeStoring j other hj).append hend
        (.inr (h.apart i j _ _ (Ne.symm hne) hown hspace))
  · rw [changeSpace, hkeeps] at hj hk
    split at hj
    · cases hj
    · split at hk
      · cases hk
      · exact h.apart j k space other hjk hj hk

/-- **One step** keeps the invariant, where a rotation that reads the addresses is alone in its
space. -/
theorem step (h : Allocating setup w) {act : IndexAct} {w' : IndexWorld}
    (hapart : ReadsApart setup w act) (hstep : step setup w act = some w') :
    Allocating setup w' := by
  cases act with
  | receive opts =>
    cases hstep
    exact { h with }
  | takeTurn | receiveFail =>
    simp only [IndexWorld.step] at hstep
    split at hstep
    · cases hstep
      exact h.setTurn _ (by simp) (by simp)
    · cases hstep
  | receiveList =>
    simp only [IndexWorld.step] at hstep
    split at hstep
    · next opts _ =>
      cases hstep
      exact { h with
        listed := fun plan held hturn => listed_of_afterList hturn
        storing := fun record hturn => absurd hturn afterList_ne_storing }
    · cases hstep
  | receiveDerive kind funding derived =>
    simp only [IndexWorld.step] at hstep
    split at hstep
    · next plan held hturn =>
      obtain ⟨hfree, hheld⟩ := h.listed plan held hturn
      split at hstep
      · cases hstep
        exact h.setTurn _ (by simp) (by simp)
      · next index htarget =>
        split at hstep
        · next hend =>
          cases hstep
          have hnot := target_not_mem hfree htarget
          refine { h with
            listed := fun plan held hturn => by cases hturn
            storing := fun record hrecord => ?_ }
          cases hrecord
          refine ⟨⟨index, congrArg some hend⟩, fun a ha hclash => hnot ?_⟩
          obtain ⟨hhd, -, hspace, -, hsame⟩ := hclash
          exact hheld a ha hspace.symm hhd index (hsame.trans (congrArg some hend))
        · cases hstep
    · cases hstep
  | receivePut =>
    simp only [IndexWorld.step] at hstep
    split at hstep
    · next record hturn =>
      cases hstep
      exact h.receivePut hturn
    · cases hstep
  | change i opts =>
    simp only [IndexWorld.step] at hstep
    split at hstep
    · cases hstep
      exact h.setChange (by simp) (by simp) (by simp [ChangePc.space?])
    · cases hstep
  | changeList i =>
    simp only [IndexWorld.step] at hstep
    split at hstep
    · next opts hpc =>
      cases hstep
      refine h.setChange (fun plan hplan => ?_) (fun record hrecord => ?_)
        (fun space hspace j other _ hother => ?_)
      · obtain ⟨plan', hplan', heq⟩ := map_eq_some_iff.mp hplan
        cases heq
        exact held_lt_of_changePlan hplan'
      · obtain ⟨plan', -, heq⟩ := map_eq_some_iff.mp hrecord
        cases heq
      · obtain ⟨pc, hpcNext, hpcSpace⟩ := bind_eq_some_iff.mp hspace
        obtain ⟨plan, hplan, rfl⟩ := map_eq_some_iff.mp hpcNext
        obtain ⟨⟨space', ticker⟩, hsource, rfl⟩ := map_eq_some_iff.mp hplan
        cases hpcSpace
        exact hapart i opts space' ticker rfl hpc hsource j other hother
    · cases hstep
  | changeDerive i kind derived =>
    simp only [IndexWorld.step] at hstep
    split at hstep
    · next plan hpc =>
      have hown : w.changeSpace i = some plan.space := by
        rw [changeSpace, hpc]
        rfl
      split at hstep
      · next hend =>
        cases hstep
        have hrecordCases : ∀ record, plan.record kind derived = some record →
            record.space = plan.space ∧ record.pathEnd = some ⟨CHANGE_BRANCH, plan.nextIndex⟩ := by
          intro record hrecord
          rw [ChangePlan.record] at hrecord
          split at hrecord
          · cases hrecord
          · cases hrecord
            exact ⟨rfl, congrArg some hend⟩
        refine h.setChange (fun plan' hplan' => ?_) (fun record hrecord => ?_)
          (fun space hspace j other hj hother => ?_)
        · obtain ⟨record, -, heq⟩ := map_eq_some_iff.mp hplan'
          cases heq
        · obtain ⟨record', hrecord', heq⟩ := map_eq_some_iff.mp hrecord
          cases heq
          obtain ⟨hspace, hpath⟩ := hrecordCases record hrecord'
          refine ⟨⟨plan.nextIndex, hpath⟩, fun a ha hclash => ?_⟩
          obtain ⟨hhd, -, hsame, -, hends⟩ := hclash
          rw [hspace] at hsame
          exact Nat.lt_irrefl _
            (h.changeListed i plan hpc a ha hsame.symm hhd plan.nextIndex (hends.trans hpath))
        · obtain ⟨pc, hpcNext, hpcSpace⟩ := bind_eq_some_iff.mp hspace
          obtain ⟨record, hrecord, rfl⟩ := map_eq_some_iff.mp hpcNext
          cases hpcSpace
          rw [(hrecordCases record hrecord).1]
          exact h.apart i j plan.space other (Ne.symm hj) hown hother
      · cases hstep
    · cases hstep
  | changePut i =>
    simp only [IndexWorld.step] at hstep
    split at hstep
    · next record hpc =>
      cases hstep
      exact h.changePut hpc
    · cases hstep
  | changeFail i =>
    simp only [IndexWorld.step] at hstep
    split at hstep
    · cases hstep
      exact h.setChange (by simp) (by simp) (by simp)
    · cases hstep

end Allocating

/-! ### Runs -/

open Transition

/-- **Each index once, where rotations read apart.** In a run in which no rotation reads the addresses
while another one that has read them is under way in the same index space, no two stored addresses
ever clash. -/
theorem rotations_apart_keep_indexes (setup : IndexSetup) (stored : List VaultAddress)
    (acts : List IndexAct) (hstored : IndexesOnce setup stored)
    (happart : Under (ReadsApart setup) (IndexWorld.step setup) (IndexWorld.start stored) acts) :
    Throughout (fun w => IndexesOnce setup w.stored) (IndexWorld.step setup)
      (IndexWorld.start stored) acts := by
  have hallocating := throughout_of_under (P := Allocating setup)
    (fun w act w' h hapart hstep => h.step hapart hstep) (.start hstored) happart
  exact hallocating.mono fun w h => h.once

/-- One wallet with one account, on one chain. -/
private def oneAccount : IndexSetup where
  accounts := [⟨"account", "wallet", 0⟩]
  distinct := by decide
  format := fun _ => some .bip39
  isDemo := fun _ => false
  chain := fun _ => some ⟨"bitcoin", "mainnet", "BTC", ["p2wpkh"], "p2wpkh"⟩

private def spender : VaultAddress :=
  ⟨"account", "bitcoin", "mainnet", .hd, "p2wpkh", some ⟨0, 0⟩, "bc1spend", "BTC Address #1"⟩

private def spends : ChangeOpts := ⟨"wallet", "bitcoin-mainnet", "bc1spend"⟩

private def firstChange : VaultAddress :=
  ⟨"account", "bitcoin", "mainnet", .hd, "p2wpkh", some ⟨1, 0⟩, "bc1change", "BTC Change #1"⟩

/-- One send, which rotates its change. -/
private def oneSend : List IndexAct :=
  [.change 0 spends, .changeList 0, .changeDerive 0 .software ⟨"bc1change", ⟨1, 0⟩⟩, .changePut 0]

private theorem readsApart_of_ne {w : IndexWorld} {act : IndexAct}
    (h : ∀ i, act ≠ .changeList i) : ReadsApart setup w act :=
  fun i _ _ _ hact => absurd hact (h i)

theorem rotations_apart_keep_indexes_oneSend :
    Throughout (fun w => IndexesOnce oneAccount w.stored) (IndexWorld.step oneAccount)
        (IndexWorld.start [spender]) oneSend ∧
      (run (IndexWorld.step oneAccount) (IndexWorld.start [spender]) oneSend).map
        IndexWorld.stored = some [spender, firstChange] := by
  refine ⟨rotations_apart_keep_indexes oneAccount [spender] oneSend (List.pairwise_singleton _ _) ?_,
    by decide⟩
  refine .cons (readsApart_of_ne (by simp)) rfl (.cons ?_ rfl (.cons (readsApart_of_ne (by simp)) rfl
    (.cons (readsApart_of_ne (by simp)) rfl trivial)))
  intro i opts space ticker hact hpc hspace j other hother
  cases hact
  by_cases hj : j = 0
  · subst hj
    cases hother
  · rw [IndexWorld.changeSpace, IndexWorld.changes_setChange_of_ne _ _ hj] at hother
    cases hother

/-- Two sends at once: both rotations read the addresses, and both store the first change address. -/
private def twoSends : List IndexAct :=
  [.change 0 spends, .change 1 spends, .changeList 0, .changeList 1,
    .changeDerive 0 .software ⟨"bc1change", ⟨1, 0⟩⟩,
    .changeDerive 1 .software ⟨"bc1change", ⟨1, 0⟩⟩, .changePut 0, .changePut 1]

/-- Rotations of two sends at once store one change address twice. -/
theorem not_indexes_once :
    ¬∀ (setup : IndexSetup) (stored : List VaultAddress) (acts : List IndexAct),
      IndexesOnce setup stored →
        Throughout (fun w => IndexesOnce setup w.stored) (IndexWorld.step setup)
          (IndexWorld.start stored) acts := by
  intro hall
  have hthrough := hall oneAccount [spender] twoSends (List.pairwise_singleton _ _)
  have hstored : (run (IndexWorld.step oneAccount) (IndexWorld.start [spender]) twoSends).map
      IndexWorld.stored = some [spender, firstChange, firstChange] := by decide
  obtain ⟨w, hw, hfinal⟩ := Option.map_eq_some_iff.mp hstored
  have honce : IndexesOnce oneAccount w.stored := Throughout.last (P := fun w => IndexesOnce oneAccount w.stored) hthrough hw
  rw [hfinal] at honce
  have hclash : Clash oneAccount firstChange firstChange := by
    refine ⟨rfl, rfl, ⟨rfl, rfl, rfl, .inr rfl⟩, ?_, rfl⟩
    decide
  rw [IndexesOnce, List.pairwise_cons, List.pairwise_cons] at honce
  exact honce.2.1 firstChange List.mem_cons_self hclash

end XchainWallet
