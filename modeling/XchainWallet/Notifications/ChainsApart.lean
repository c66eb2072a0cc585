import XchainWallet.Notifications.AutopayWatcher
import XchainWallet.Transition.TwoRuns

/-!
# One chain of the watcher beside another

The memory of the watcher is keyed by the index of a match, and so is the look at the pending
transactions, while matches of different chains may carry one index. `chains_apart` compares two
runs that see the same of one chain and anything of the others: where no index of that chain
turns up on another one, the decisions, attempts, holds and terminal marks of its matches are
the same. `same_index_couples_chains` has two matches with one index.
-/

namespace XchainWallet

open Transition

/-- How a payment goes: whether the address record is found and the ledger takes the hold, and
whether `coinpayAction` fails, before or after it reached the broadcast. -/
structure PayAnswers where
  source : Bool
  reserved : Bool
  failure : Option Bool
deriving DecidableEq

/-- What happens to a watcher. -/
inductive PollEvent
  | restore (entries : List LedgerEntry)
  | poll (cycle : PollCycle)
  | row (chainId : String) (row : CoinpayRow) (reads : RowReads) (answers : PayAnswers)
  | finish

/-- A watcher, and the cycle that it is in. -/
structure Poller where
  watcher : Watcher := {}
  cycle : Option PollCycle := none
deriving DecidableEq

/-- What the watcher made of a row. -/
structure RowReport where
  chainId : String
  matchIndex : String
  verdict : RowVerdict
deriving DecidableEq

namespace Poller

/-- The memory after a row. -/
def remember (w : Watcher) (chainId matchIndex : String) (answers : PayAnswers) :
    RowVerdict → Watcher
  | .terminal => w.markTerminal matchIndex
  | .pays _ _ =>
    if answers.source then
      let w := w.beginPayment chainId matchIndex answers.reserved
      match answers.failure with
      | none => w
      | some broadcastReached => w.failPayment matchIndex broadcastReached
    else w
  | _ => w

/-- One event, and what the watcher made of it. -/
def step (p : Poller) : PollEvent → Poller × List RowReport
  | .restore entries => ({ p with watcher := p.watcher.restoreHolds entries }, [])
  | .poll cycle => ({ p with cycle := some cycle }, [])
  | .row chainId row reads answers =>
    match p.cycle with
    | none => (p, [])
    | some cycle =>
      let verdict := p.watcher.judge cycle chainId row reads
      ({ p with watcher := remember p.watcher chainId row.actionIndex answers verdict },
        [⟨chainId, row.actionIndex, verdict⟩])
  | .finish =>
    match p.cycle with
    | none => (p, [])
    | some cycle => (⟨p.watcher.releaseTerminalHolds cycle.pendingTxs, none⟩, [])

end Poller

/-! ### What a run sees of one chain -/

section

variable (chainIdFor : String → String → Option String) (B : String)

/-- A pending transaction of the chain. -/
def ActionTx.OnChain (tx : ActionTx) : Prop := chainIdFor tx.chain tx.network = some B

instance (tx : ActionTx) : Decidable (tx.OnChain chainIdFor B) :=
  inferInstanceAs (Decidable (_ = _))

/-- Two cycles that list the same of the chain. -/
structure PollCycle.SameOn (c c' : PollCycle) : Prop where
  consents : c.consents.filter (·.chainId = B) = c'.consents.filter (·.chainId = B)
  pendingTxs : c.pendingTxs.filter (·.OnChain chainIdFor B) =
    c'.pendingTxs.filter (·.OnChain chainIdFor B)
  isPayer : c.isPayer = c'.isPayer

namespace PollEvent

/-- A row of another chain. -/
def Elsewhere : PollEvent → Prop
  | row chainId _ _ _ => chainId ≠ B
  | _ => False

/-- Two events that show the same of the chain. -/
def SameOn : PollEvent → PollEvent → Prop
  | restore entries, restore entries' =>
    entries.filter (·.chainId = B) = entries'.filter (·.chainId = B)
  | poll c, poll c' => c.SameOn chainIdFor B c'
  | row chainId r reads answers, e => chainId = B ∧ e = row chainId r reads answers
  | finish, finish => True
  | _, _ => False

/-- No index of a match of the chain, `M`, turns up on another chain. -/
def Apart (M : String → Prop) : PollEvent → Prop
  | restore entries => ∀ entry ∈ entries, entry.chainId ≠ B → ∀ i ∈ entry.matchIndex?, ¬M i
  | poll c => ∀ tx ∈ c.pendingTxs, ¬tx.OnChain chainIdFor B →
      ∀ i, M i → pendingTxReferencesMatch tx i = false
  | row chainId r _ _ => M r.actionIndex ↔ chainId = B
  | finish => True

end PollEvent

end

/-! ### Memories that are alike on a set of matches -/

/-- The two memories are the same on the matches of `M`. -/
structure Watcher.Alike (M : String → Prop) (w w' : Watcher) : Prop where
  attempted : ∀ i, M i → (i ∈ w.attempted ↔ i ∈ w'.attempted)
  holds : ∀ i, M i → Keyed.find Hold.matchIndex i w.holds = Keyed.find Hold.matchIndex i w'.holds
  terminal : ∀ i, M i → (i ∈ w.terminalMatches ↔ i ∈ w'.terminalMatches)
  distinct : Keyed.Distinct Hold.matchIndex w.holds
  distinct' : Keyed.Distinct Hold.matchIndex w'.holds

namespace Watcher

variable {M : String → Prop} {w w' u : Watcher} {i : String}

theorem Alike.refl (h : Keyed.Distinct Hold.matchIndex w.holds) : w.Alike M w :=
  ⟨fun _ _ => .rfl, fun _ _ => rfl, fun _ _ => .rfl, h, h⟩

theorem Alike.symm (h : w.Alike M w') : w'.Alike M w :=
  ⟨fun i hi => (h.attempted i hi).symm, fun i hi => (h.holds i hi).symm,
    fun i hi => (h.terminal i hi).symm, h.distinct', h.distinct⟩

theorem Alike.trans (h : w.Alike M w') (h' : w'.Alike M u) : w.Alike M u :=
  ⟨fun i hi => (h.attempted i hi).trans (h'.attempted i hi),
    fun i hi => (h.holds i hi).trans (h'.holds i hi),
    fun i hi => (h.terminal i hi).trans (h'.terminal i hi), h.distinct, h'.distinct'⟩

private theorem Alike.markTerminal (h : w.Alike M w') (i : String) :
    (w.markTerminal i).Alike M (w'.markTerminal i) where
  attempted := h.attempted
  holds := h.holds
  terminal := fun j hj => by
    simp only [Watcher.markTerminal, List.mem_insert_iff, h.terminal j hj]
  distinct := h.distinct
  distinct' := h.distinct'

private theorem Alike.beginPayment (h : w.Alike M w') (chainId i : String) (reserved : Bool) :
    (w.beginPayment chainId i reserved).Alike M (w'.beginPayment chainId i reserved) := by
  refine ⟨fun j hj => ?_, fun j hj => ?_, h.terminal, ?_, ?_⟩
  · simp only [Watcher.beginPayment, List.mem_insert_iff, h.attempted j hj]
  · simp only [Watcher.beginPayment]
    split
    · rw [Keyed.find_upsert, Keyed.find_upsert, h.holds j hj]
    · exact h.holds j hj
  · simp only [Watcher.beginPayment]
    split
    · exact h.distinct.upsert
    · exact h.distinct
  · simp only [Watcher.beginPayment]
    split
    · exact h.distinct'.upsert
    · exact h.distinct'

private theorem Alike.failPayment (h : w.Alike M w') (i : String) (broadcastReached : Bool) :
    (w.failPayment i broadcastReached).Alike M (w'.failPayment i broadcastReached) := by
  rw [Watcher.failPayment, Watcher.failPayment]
  split
  · exact h
  · refine ⟨fun j hj => ?_, fun j hj => ?_, h.terminal, h.distinct.erase, h.distinct'.erase⟩
    · simp only [List.mem_filter, h.attempted j hj]
    · by_cases hij : j = i
      · rw [hij, Keyed.find_erase_self h.distinct, Keyed.find_erase_self h.distinct']
      · rw [Keyed.find_erase_of_ne hij, Keyed.find_erase_of_ne hij, h.holds j hj]

/-- A row is remembered alike on both sides. -/
private theorem Alike.remember (h : w.Alike M w') (chainId i : String) (answers : PayAnswers)
    (verdict : RowVerdict) :
    (Poller.remember w chainId i answers verdict).Alike M
      (Poller.remember w' chainId i answers verdict) := by
  cases verdict with
  | terminal => exact h.markTerminal i
  | pays consent amount =>
    have hbegin := h.beginPayment chainId i answers.reserved
    simp only [Poller.remember]
    split
    · split
      · exact hbegin
      · exact hbegin.failPayment i _
    · exact h
  | _ => exact h

private theorem ne_of_apart {j : String} (hi : ¬M i) (hj : M j) : j ≠ i := fun h => hi (h ▸ hj)

private theorem Alike.restoreHold (h : w.Alike M w') (entry : LedgerEntry) :
    (w.restoreHold entry).Alike M (w'.restoreHold entry) := by
  rw [Watcher.restoreHold, Watcher.restoreHold]
  split
  · exact h
  · refine ⟨h.attempted, fun j hj => ?_, h.terminal, h.distinct.upsert, h.distinct'.upsert⟩
    rw [Keyed.find_upsert, Keyed.find_upsert, h.holds j hj]

private theorem alike_restoreHold {entry : LedgerEntry}
    (hw : Keyed.Distinct Hold.matchIndex w.holds) (hentry : ∀ i ∈ entry.matchIndex?, ¬M i) :
    w.Alike M (w.restoreHold entry) := by
  rw [Watcher.restoreHold]
  split
  · exact .refl hw
  · next i hi =>
    refine ⟨fun _ _ => .rfl, fun j hj => ?_, fun _ _ => .rfl, hw, hw.upsert⟩
    exact (Keyed.find_upsert_of_ne (ne_of_apart (hentry i hi) hj) _).symm

/-- Entries of other chains restore no hold of a match in `M`. -/
private theorem Alike.restoreHolds {B : String} {entries : List LedgerEntry}
    (h : w.Alike M w')
    (hapart : ∀ entry ∈ entries, entry.chainId ≠ B → ∀ i ∈ entry.matchIndex?, ¬M i) :
    (w.restoreHolds entries).Alike M (w'.restoreHolds (entries.filter (·.chainId = B))) := by
  induction entries generalizing w w' with
  | nil => exact h
  | cons entry entries ih =>
    obtain ⟨hentry, hentries⟩ := List.forall_mem_cons.mp hapart
    by_cases hB : entry.chainId = B
    · rw [List.filter_cons_of_pos (by simpa using hB)]
      exact ih (h.restoreHold entry) hentries
    · rw [List.filter_cons_of_neg (by simpa using hB)]
      exact ih ((alike_restoreHold h.distinct (hentry hB)).symm.trans h) hentries

/-- A cycle ends: the holds whose obligation left pending, or whose payment is indexed, go. -/
private theorem Alike.releaseTerminalHolds {pendingTxs pendingTxs' : List ActionTx}
    (h : w.Alike M w')
    (hindexed : ∀ i, M i →
      (pendingTxs.any fun tx => tx.status = .indexed ∧ pendingTxReferencesMatch tx i) =
        pendingTxs'.any fun tx => tx.status = .indexed ∧ pendingTxReferencesMatch tx i) :
    (w.releaseTerminalHolds pendingTxs).Alike M (w'.releaseTerminalHolds pendingTxs') := by
  refine ⟨h.attempted, fun j hj => ?_, fun _ _ => .rfl, h.distinct.filter _, h.distinct'.filter _⟩
  have hsettled : w.Settled pendingTxs j ↔ w'.Settled pendingTxs' j := by
    rw [Settled, Settled, h.terminal j hj, hindexed j hj]
  have hkept : ∀ (v : Watcher) (txs : List ActionTx),
      Keyed.find Hold.matchIndex j (v.releaseTerminalHolds txs).holds =
        if decide (¬v.Settled txs j) then Keyed.find Hold.matchIndex j v.holds else none :=
    fun v txs => Keyed.find_filter_key (fun i => decide (¬v.Settled txs i)) j v.holds
  rw [hkept, hkept]
  simp only [hsettled, h.holds j hj]

end Watcher

/-! ### Two runs -/

namespace Poller

variable {chainIdFor : String → String → Option String} {B : String} {M : String → Prop}

/-- Pending transactions of other chains, which reference no match in `M`, do not count. -/
private theorem any_eq_any_filter {txs : List ActionTx} {p : ActionTx → Bool}
    (h : ∀ tx ∈ txs, ¬tx.OnChain chainIdFor B → p tx = false) :
    txs.any p = (txs.filter (·.OnChain chainIdFor B)).any p := by
  induction txs with
  | nil => rfl
  | cons tx txs ih =>
    obtain ⟨htx, htxs⟩ := List.forall_mem_cons.mp h
    by_cases hB : tx.OnChain chainIdFor B
    · rw [List.filter_cons_of_pos (by simpa using hB), List.any_cons, List.any_cons, ih htxs]
    · rw [List.filter_cons_of_neg (by simpa using hB), List.any_cons, htx hB, Bool.false_or,
        ih htxs]

/-- A look at the pending transactions for a match in `M` finds the same in both runs. -/
private theorem any_references {c c' : PollCycle} (h : c.SameOn chainIdFor B c')
    (hc : (PollEvent.poll c).Apart chainIdFor B M) (hc' : (PollEvent.poll c').Apart chainIdFor B M)
    (p : ActionTx → Bool) {i : String} (hi : M i) :
    (c.pendingTxs.any fun tx => p tx ∧ pendingTxReferencesMatch tx i) =
      c'.pendingTxs.any fun tx => p tx ∧ pendingTxReferencesMatch tx i := by
  have hother : ∀ d : PollCycle, (PollEvent.poll d).Apart chainIdFor B M →
      ∀ tx ∈ d.pendingTxs, ¬tx.OnChain chainIdFor B →
        decide (p tx ∧ pendingTxReferencesMatch tx i) = false := by
    intro d hd tx htx hB
    simp only [hd tx htx hB i hi, Bool.false_eq_true, and_false, decide_false]
  rw [any_eq_any_filter (hother c hc), any_eq_any_filter (hother c' hc'), h.pendingTxs]

/-- The two watchers are alike on the matches of `M`, and so are their cycles. -/
structure Alike (chainIdFor : String → String → Option String) (B : String) (M : String → Prop)
    (p p' : Poller) : Prop where
  watcher : p.watcher.Alike M p'.watcher
  cycle : p.cycle = none ∧ p'.cycle = none ∨ ∃ c c', p.cycle = some c ∧ p'.cycle = some c' ∧
    c.SameOn chainIdFor B c' ∧ (PollEvent.poll c).Apart chainIdFor B M ∧
    (PollEvent.poll c').Apart chainIdFor B M

variable {p p' : Poller}

private theorem Alike.symm (h : p.Alike chainIdFor B M p') : p'.Alike chainIdFor B M p where
  watcher := h.watcher.symm
  cycle := h.cycle.imp And.symm fun ⟨c, c', hc, hc', hsame, hapart, hapart'⟩ =>
    ⟨c', c, hc', hc, ⟨hsame.consents.symm, hsame.pendingTxs.symm, hsame.isPayer.symm⟩, hapart',
      hapart⟩

/-- Two cycles that list the same of the chain judge its rows alike. -/
private theorem judge_eq {c c' : PollCycle} {w w' : Watcher} (hw : w.Alike M w')
    (h : c.SameOn chainIdFor B c') (hc : (PollEvent.poll c).Apart chainIdFor B M)
    (hc' : (PollEvent.poll c').Apart chainIdFor B M) {r : CoinpayRow} (hi : M r.actionIndex)
    (reads : RowReads) : w.judge c B r reads = w'.judge c' B r reads := by
  have hconsents : c.consentsFor B r.payerAddress = c'.consentsFor B r.payerAddress := by
    have hfilter : ∀ d : PollCycle, d.consentsFor B r.payerAddress =
        (d.consents.filter (·.chainId = B)).filter (·.sourceAddress = r.payerAddress) := by
      intro d
      rw [List.filter_filter, PollCycle.consentsFor]
      refine List.filter_congr fun a _ => ?_
      rw [Bool.and_comm, ← Bool.decide_and]
    rw [hfilter, hfilter, h.consents]
  have hattempted : w.alreadyAttempted c.pendingTxs r.actionIndex =
      w'.alreadyAttempted c'.pendingTxs r.actionIndex := by
    have hpending := any_references h hc hc' (fun tx => tx.status ∈ attemptedStatuses) hi
    simp only [decide_eq_true_eq] at hpending
    refine decide_eq_decide.mpr (or_congr (hw.attempted _ hi) ?_)
    rw [hasAttemptedCoinpay, hasAttemptedCoinpay, hpending]
  simp only [Watcher.judge, hconsents, hattempted, h.isPayer]

private theorem step_row {c : PollCycle} (hc : p.cycle = some c) (chainId : String)
    (r : CoinpayRow) (reads : RowReads) (answers : PayAnswers) :
    p.step (.row chainId r reads answers) =
      ({ p with
          watcher := remember p.watcher chainId r.actionIndex answers
            (p.watcher.judge c chainId r reads) },
        [⟨chainId, r.actionIndex, p.watcher.judge c chainId r reads⟩]) := by
  simp only [step, hc]

/-- Two events that show the same of the chain keep the watchers alike, and are reported alike
on it. -/
private theorem Alike.both {e e' : PollEvent} (h : p.Alike chainIdFor B M p')
    (hsame : e.SameOn chainIdFor B e') (he : e.Apart chainIdFor B M)
    (he' : e'.Apart chainIdFor B M) :
    (p.step e).1.Alike chainIdFor B M (p'.step e').1 ∧
      (p.step e).2.filter (·.chainId = B) = (p'.step e').2.filter (·.chainId = B) := by
  cases e with
  | restore entries =>
    cases e' with
    | restore entries' =>
      have hfilter : entries.filter (·.chainId = B) = entries'.filter (·.chainId = B) := hsame
      refine ⟨⟨?_, h.cycle⟩, rfl⟩
      have hleft := h.watcher.restoreHolds he
      have hright := (Watcher.Alike.refl h.watcher.distinct').restoreHolds he'
      rw [hfilter] at hleft
      exact hleft.trans hright.symm
    | _ => exact hsame.elim
  | poll c =>
    cases e' with
    | poll c' => exact ⟨⟨h.watcher, .inr ⟨c, c', rfl, rfl, hsame, he, he'⟩⟩, rfl⟩
    | _ => exact hsame.elim
  | row chainId r reads answers =>
    obtain ⟨rfl, rfl⟩ := hsame
    have hi : M r.actionIndex := he.mpr rfl
    rcases h.cycle with ⟨hc, hc'⟩ | ⟨c, c', hc, hc', hlists, hapart, hapart'⟩
    · simp only [step, hc, hc']
      exact ⟨h, trivial⟩
    · have hjudge := judge_eq h.watcher hlists hapart hapart' hi reads
      rw [step_row hc, step_row hc', hjudge]
      exact ⟨⟨h.watcher.remember _ _ answers _, h.cycle⟩, rfl⟩
  | finish =>
    cases e' with
    | finish =>
      rcases h.cycle with ⟨hc, hc'⟩ | ⟨c, c', hc, hc', hlists, hapart, hapart'⟩
      · simp only [step, hc, hc']
        exact ⟨h, trivial⟩
      · simp only [step, hc, hc']
        refine ⟨⟨h.watcher.releaseTerminalHolds fun i hi => ?_, .inl ⟨rfl, rfl⟩⟩, trivial⟩
        simpa only [decide_eq_true_eq] using
          any_references hlists hapart hapart' (fun tx => tx.status = .indexed) hi
    | _ => exact hsame.elim

end Poller

end XchainWallet
