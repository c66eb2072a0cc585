import XchainWallet.Notifications.PendingTxBridge

/-!
# What is left of a chain of replacements

A call that resolves has retired the records of the transaction and what the walks from those that were
not yet indexed reach. A later member of a chain that no such walk reaches stays as it was: so it is
where the call finds the record indexed, which an earlier call may have done before it failed, and
behind a member that is failed or in a block already. `markPendingTxIndexed_clears_iff` says that this
is all: the chain is cleared exactly when the walks reach every member that takes from a balance.
-/

namespace XchainWallet.PendingLedger

open Traced

variable {records : List PendingRecord} {next : String} {r s : PendingRecord}

/-! ### Walks and chains -/

theorem exists_firstReplacement (dead : List PendingRecord) (h : firstReplacement dead ≠ "") :
    ∃ r ∈ dead, r.replacement = firstReplacement dead := by
  rw [firstReplacement] at h ⊢
  rcases hfind : (dead.map PendingRecord.replacement).find? (· ≠ "") with _ | n
  · rw [hfind] at h
    exact absurd rfl h
  · obtain ⟨r, hr, rfl⟩ := List.mem_map.mp (List.mem_of_find?_eq_some hfind)
    exact ⟨r, hr, rfl⟩

/-- No member of the chain from `next` on has the hash. -/
def Avoids (records : List PendingRecord) (hash next : String) : Prop :=
  ∀ s, Later records next s → s.hash ≠ hash

/-! ### Retired records -/

/-- A part of the records is retired, in a block or failed, and the others are as they were. -/
structure RetiredBy (records : List PendingRecord) (gone : PendingRecord → Prop)
    (g : PendingRecord → PendingRecord) : Prop where
  id_eq : ∀ r ∈ records, (g r).id = r.id
  hash_eq : ∀ r ∈ records, (g r).hash = r.hash
  replacement_eq : ∀ r ∈ records, (g r).replacement = r.replacement
  kept : ∀ r ∈ records, ¬ gone r → g r = r
  retired : ∀ r ∈ records, gone r → (g r).status = .indexed ∨ (g r).status = .failed

/-- What is retired at a hash other than the confirmed one is retired with all that the walk from there
reaches. -/
def Whole (records : List PendingRecord) (hash : String) (gone : PendingRecord → Prop) : Prop :=
  ∀ n, n ≠ hash → ∀ d ∈ records, IsDead n d → gone d → ∀ s, Walked records n s → gone s

section Retired

variable {hash : String} {gone : PendingRecord → Prop} {g : PendingRecord → PendingRecord}

theorem RetiredBy.not_isDead (h : RetiredBy records gone g) (hr : r ∈ records) (hgone : gone r)
    (n : String) : ¬ IsDead n (g r) := by
  rintro ⟨-, hindexed, hfailed⟩
  rcases h.retired r hr hgone with hstatus | hstatus
  · exact hindexed hstatus
  · exact hfailed hstatus

/-- Where nothing of a hash is retired, a step of the walk finds the same records. -/
theorem RetiredBy.filter_eq (h : RetiredBy records gone g)
    (hnone : ∀ d ∈ records, IsDead next d → ¬ gone d) :
    ((records.map g).filter fun r => IsDead next r) = records.filter fun r => IsDead next r := by
  rw [List.filter_map]
  have hfilter : records.filter ((fun r => decide (IsDead next r)) ∘ g) =
      records.filter fun r => IsDead next r := by
    refine List.filter_congr fun r hr => ?_
    by_cases hgone : gone r
    · have hleft : ¬ IsDead next (g r) := h.not_isDead hr hgone next
      have hright : ¬ IsDead next r := fun hdead => hnone r hr hdead hgone
      simp only [Function.comp_apply, hleft, hright]
    · rw [Function.comp_apply, h.kept r hr hgone]
  have hsame : ∀ r ∈ records.filter fun r => IsDead next r, g r = id r := by
    intro r hr
    obtain ⟨hmem, hdead⟩ := List.mem_filter.mp hr
    exact h.kept r hmem (hnone r hmem (of_decide_eq_true hdead))
  rw [hfilter, List.map_congr_left hsame, List.map_id]

/-- A walk over the records reaches what is retired already, or is a walk over what is left. -/
theorem RetiredBy.walked_of_walked (h : RetiredBy records gone g) (hwhole : Whole records hash gone)
    (havoids : Avoids records hash next) (hs : Walked records next s) :
    gone s ∨ Walked (records.map g) next s := by
  induction hs with
  | @here next s hnext hs hdead =>
    by_cases hgone : gone s
    · exact .inl hgone
    · refine .inr (.here hnext ?_ hdead)
      exact List.mem_map.mpr ⟨s, hs, h.kept s hs hgone⟩
  | @onward next s hnext hs ih =>
    obtain ⟨r, hr, hreplacement⟩ := exists_firstReplacement _ hs.next_ne
    obtain ⟨hr, hdead⟩ := List.mem_filter.mp hr
    have hdead : IsDead next r := of_decide_eq_true hdead
    have hne : next ≠ hash := hdead.1 ▸ havoids r (.here hnext hr hdead.1)
    have hstep := ih fun s hs => havoids s (.onward hr hdead.1 (hreplacement ▸ hs))
    -- Either a record of this hash is retired, and then all that the walk reaches, or none is.
    by_cases hsome : ∃ d ∈ records, IsDead next d ∧ gone d
    · obtain ⟨d, hd, hdeadd, hgone⟩ := hsome
      exact .inl (hwhole next hne d hd hdeadd hgone s (.onward hnext hs))
    · rcases hstep with hgone | hwalked
      · exact .inl hgone
      · rw [← h.filter_eq fun d hd hdeadd hgone => hsome ⟨d, hd, hdeadd, hgone⟩] at hwalked
        exact .inr (.onward hnext hwalked)

/-- A walk over what is left is a walk over the records, and reaches nothing that is retired. -/
theorem RetiredBy.walked_of_map (h : RetiredBy records gone g) (hwhole : Whole records hash gone)
    (havoids : Avoids records hash next) (hs : Walked (records.map g) next s) :
    s ∈ records ∧ ¬ gone s ∧ Walked records next s := by
  have hback : ∀ n, ∀ d ∈ records.map g, IsDead n d → d ∈ records ∧ ¬ gone d := by
    intro n d hd hdead
    obtain ⟨r, hr, rfl⟩ := List.mem_map.mp hd
    have hgone : ¬ gone r := fun hgone => h.not_isDead hr hgone n hdead
    rw [h.kept r hr hgone]
    exact ⟨hr, hgone⟩
  induction hs with
  | @here next s hnext hs hdead =>
    obtain ⟨hmem, hgone⟩ := hback next s hs hdead
    exact ⟨hmem, hgone, .here hnext hmem hdead⟩
  | @onward next s hnext hs ih =>
    obtain ⟨r, hr, -⟩ := exists_firstReplacement _ hs.next_ne
    obtain ⟨hr, hdead⟩ := List.mem_filter.mp hr
    have hdead : IsDead next r := of_decide_eq_true hdead
    obtain ⟨hmem, hgone⟩ := hback next r hr hdead
    have hne : next ≠ hash := hdead.1 ▸ havoids r (.here hnext hmem hdead.1)
    -- A record of this hash is left, so none of the hash is retired.
    have hnone : ∀ d ∈ records, IsDead next d → ¬ gone d := fun d hd hdeadd hgoned =>
      hgone (hwhole next hne d hd hdeadd hgoned r (.here hnext hmem hdead))
    rw [h.filter_eq hnone] at ih
    obtain ⟨q, hq, hreplacement⟩ := exists_firstReplacement (records.filter fun r => IsDead next r)
      (by rw [← h.filter_eq hnone]; exact hs.next_ne)
    obtain ⟨hq, hdeadq⟩ := List.mem_filter.mp hq
    obtain ⟨hmems, hgones, hwalked⟩ := ih fun s hs =>
      havoids s (.onward hq (of_decide_eq_true hdeadq).1 (hreplacement ▸ hs))
    exact ⟨hmems, hgones, .onward hnext hwalked⟩

end Retired

/-! ### What a call retires -/

/-- The stored records are those of `records` with the part `gone` retired. -/
def Shape (records : List PendingRecord) (gone : PendingRecord → Prop) (stored : List PendingRecord) :
    Prop :=
  ∃ g, stored = records.map g ∧ RetiredBy records gone g

theorem shape_self : Shape records (fun _ => False) records :=
  ⟨id, (List.map_id records).symm,
    { id_eq := fun _ _ => rfl
      hash_eq := fun _ _ => rfl
      replacement_eq := fun _ _ => rfl
      kept := fun _ _ _ => rfl
      retired := fun _ _ h => h.elim }⟩

theorem Shape.congr {gone gone' : PendingRecord → Prop} {stored : List PendingRecord}
    (h : Shape records gone stored) (hgone : ∀ r, gone r ↔ gone' r) : Shape records gone' stored := by
  have heq : gone = gone' := funext fun r => propext (hgone r)
  exact heq ▸ h

/-- The walk over what is left retires what the walk over all records reaches. -/
theorem Shape.failsWalked {hash : String} {gone : PendingRecord → Prop} {stored stored' : List PendingRecord}
    (h : Shape records gone stored) (hwhole : Whole records hash gone)
    (havoids : Avoids records hash next) (hwalk : FailsWalked stored next stored') :
    Shape records (fun r => gone r ∨ Walked records next r) stored' := by
  obtain ⟨g, rfl, hg⟩ := h
  obtain ⟨f, rfl, hf⟩ := hwalk
  have hmem : ∀ r ∈ records, g r ∈ records.map g := fun r hr => List.mem_map_of_mem hr
  have hcases : ∀ r ∈ records, f (g r) = lostRecord (g r) ∨ f (g r) = g r := by
    intro r hr
    by_cases hwalked : Walked (records.map g) next (g r)
    · exact .inl ((hf _ (hmem r hr)).1 hwalked)
    · exact .inr ((hf _ (hmem r hr)).2 hwalked)
  refine ⟨fun r => f (g r), by rw [List.map_map]; rfl, ?_, ?_, ?_, ?_, ?_⟩
  · intro r hr
    rcases hcases r hr with h | h <;> rw [h, ← hg.id_eq r hr]
    rfl
  · intro r hr
    rcases hcases r hr with h | h <;> rw [h, ← hg.hash_eq r hr]
    rfl
  · intro r hr
    rcases hcases r hr with h | h <;> rw [h, ← hg.replacement_eq r hr]
    rfl
  · intro r hr hkept
    have hgone : ¬ gone r := fun h => hkept (.inl h)
    have hnot : ¬ Walked (records.map g) next (g r) := by
      intro hwalked
      rw [hg.kept r hr hgone] at hwalked
      exact hkept (.inr (hg.walked_of_map hwhole havoids hwalked).2.2)
    rw [(hf _ (hmem r hr)).2 hnot, hg.kept r hr hgone]
  · intro r hr hretired
    by_cases hgone : gone r
    · rcases hcases r hr with h | h
      · rw [h]
        exact .inr rfl
      · rw [h]
        exact hg.retired r hr hgone
    · -- Not retired before, so it is as it was, and the walk over what is left reaches it.
      have hwalked : Walked records next r := hretired.resolve_left hgone
      have hleft := (hg.walked_of_walked hwhole havoids hwalked).resolve_left hgone
      rw [← hg.kept r hr hgone] at hleft
      rw [(hf _ (hmem r hr)).1 hleft]
      exact .inr rfl

/-- The records of the transaction are retired when they are put back as indexed. -/
theorem Shape.put_indexed {ledger₀ ledger : Ledger} {gone : PendingRecord → Prop} {m : PendingRecord}
    (h : Shape ledger₀.records gone ledger.records) (hm : m ∈ ledger₀.records) (opts : MarkOpts) :
    Shape ledger₀.records (fun r => gone r ∨ r = m) (ledger.put (indexedRecord opts m)).records := by
  obtain ⟨g, hg, hshape⟩ := h
  have hgm : g m ∈ ledger.records := hg ▸ List.mem_map_of_mem hm
  have hid : (indexedRecord opts m).id = (g m).id := (hshape.id_eq m hm).symm
  have hrecords := ledger.records_put_of_mem hgm hid
  rw [hg, List.map_map] at hrecords
  have hat : ∀ r ∈ ledger₀.records, (g r).id = (g m).id ↔ r = m := by
    intro r hr
    rw [hshape.id_eq r hr, hshape.id_eq m hm]
    exact ⟨ledger₀.eq_of_key_eq hr hm, congrArg PendingRecord.id⟩
  refine ⟨fun r => if (g r).id = (g m).id then indexedRecord opts m else g r, hrecords, ?_, ?_, ?_, ?_, ?_⟩
  · intro r hr
    by_cases hrm : r = m
    · rw [if_pos ((hat r hr).mpr hrm), hrm]
      rfl
    · rw [if_neg fun h => hrm ((hat r hr).mp h), hshape.id_eq r hr]
  · intro r hr
    by_cases hrm : r = m
    · rw [if_pos ((hat r hr).mpr hrm), hrm]
      rfl
    · rw [if_neg fun h => hrm ((hat r hr).mp h), hshape.hash_eq r hr]
  · intro r hr
    by_cases hrm : r = m
    · rw [if_pos ((hat r hr).mpr hrm), hrm]
      rfl
    · rw [if_neg fun h => hrm ((hat r hr).mp h), hshape.replacement_eq r hr]
  · intro r hr hkept
    rw [if_neg fun h => hkept (.inr ((hat r hr).mp h)), hshape.kept r hr fun h => hkept (.inl h)]
  · intro r hr hretired
    by_cases hrm : r = m
    · rw [if_pos ((hat r hr).mpr hrm)]
      exact .inl rfl
    · rw [if_neg fun h => hrm ((hat r hr).mp h)]
      exact hshape.retired r hr (hretired.resolve_right hrm)

/-- What the call retires of the records that it found: those that were not indexed, and what the walks
from them reach. -/
def Retires (records ms : List PendingRecord) (r : PendingRecord) : Prop :=
  ∃ m ∈ ms, m.status ≠ .indexed ∧ (r = m ∨ Walked records m.replacement r)

theorem markMatches_retires (opts : MarkOpts) (ledger₀ : Ledger) {hash : String} (ms : List PendingRecord)
    (hms : ∀ m ∈ ms, m ∈ ledger₀.records ∧ m.hash = hash ∧ Avoids ledger₀.records hash m.replacement)
    (gone : PendingRecord → Prop) (hwhole : Whole ledger₀.records hash gone) :
    Triple (fun s => Shape ledger₀.records gone s.records) (markMatches opts ms)
      (fun _ s => Shape ledger₀.records (fun r => gone r ∨ Retires ledger₀.records ms r) s.records)
      fun _ => True := by
  induction ms generalizing gone with
  | nil =>
    refine triple_pure fun s hs => hs.congr fun r => ⟨.inl, fun h => h.elim id ?_⟩
    rintro ⟨m, hm, -⟩
    exact absurd hm List.not_mem_nil
  | cons m rest ih =>
    obtain ⟨hm, hhash, havoids⟩ := hms m (.head _)
    have hrest : ∀ m ∈ rest, m ∈ ledger₀.records ∧ m.hash = hash ∧
        Avoids ledger₀.records hash m.replacement := fun m hm => hms m (.tail _ hm)
    rw [markMatches]
    by_cases hindexed : m.status = .indexed
    · rw [if_pos hindexed]
      refine (ih hrest gone hwhole).post fun _ s hs => hs.congr fun r => ?_
      have hskip : Retires ledger₀.records rest r ↔ Retires ledger₀.records (m :: rest) r := by
        constructor
        · rintro ⟨m', hm', h⟩
          exact ⟨m', List.mem_cons_of_mem _ hm', h⟩
        · rintro ⟨m', hm', hne, h⟩
          rcases List.mem_cons.mp hm' with rfl | hm'
          · exact absurd hindexed hne
          · exact ⟨m', hm', hne, h⟩
      rw [hskip]
    rw [if_neg hindexed]
    -- The record itself is of the confirmed hash, so retiring it breaks no walk.
    have hwhole₁ : Whole ledger₀.records hash fun r => gone r ∨ r = m := by
      rintro n hn d hd hdead (hgone | rfl) s hs
      · exact .inl (hwhole n hn d hd hdead hgone s hs)
      · exact absurd (hdead.1.symm.trans hhash) hn
    have hwhole₂ : Whole ledger₀.records hash fun r =>
        (gone r ∨ r = m) ∨ Walked ledger₀.records m.replacement r := by
      rintro n hn d hd hdead (hgone | hwalked) s hs
      · exact .inl (hwhole₁ n hn d hd hdead hgone s hs)
      · rw [← hdead.1] at hs
        exact .inr (hwalked.trans hs)
    refine Triple.bind (Q := fun _ s => Shape ledger₀.records (fun r => gone r ∨ r = m) s.records)
      (triple_write (fun s hs => hs.put_indexed hm opts) fun _ _ => trivial) fun _ => ?_
    refine Triple.bind (triple_of_store fun s hs => (failSupersededReplacements_fails s m).post
      fun _ s' hs' => hs.failsWalked hwhole₁ havoids hs') fun _ => ?_
    refine Triple.bind (ih hrest _ hwhole₂) fun _ => ?_
    refine triple_pure fun s hs => hs.congr fun r => ?_
    constructor
    · rintro (((hgone | rfl) | hwalked) | ⟨m', hm', h⟩)
      · exact .inl hgone
      · exact .inr ⟨r, (.head _), hindexed, .inl rfl⟩
      · exact .inr ⟨m, (.head _), hindexed, .inr hwalked⟩
      · exact .inr ⟨m', List.mem_cons_of_mem _ hm', h⟩
    · rintro (hgone | ⟨m', hm', hne, h⟩)
      · exact .inl (.inl (.inl hgone))
      · rcases List.mem_cons.mp hm' with rfl | hm'
        · exact .inl (h.elim (fun h => .inl (.inr h)) .inr)
        · exact .inr ⟨m', hm', hne, h⟩

/-! ### When a chain is cleared -/

/-- The records are linked into chains: the replacements of a transaction do not lead back to it. -/
def Chained (records : List PendingRecord) (txid : String) : Prop :=
  ∀ m ∈ matchesOf records txid, Avoids records (lower (some txid)) m.replacement

/-- No later member of a chain of the transaction is stored in a status that takes from a balance. -/
def Cleared (records : List PendingRecord) (txid : String) (stored : List PendingRecord) : Prop :=
  ∀ m ∈ matchesOf records txid, ∀ r, Later records m.replacement r →
    ∀ s ∈ stored, s.id = r.id → s.status ∉ UNCONFIRMED_COMMITTED_STATUSES

/-- The walks from the records that are not indexed yet reach each later member that takes from a
balance. -/
def WalksReach (records : List PendingRecord) (txid : String) : Prop :=
  ∀ m ∈ matchesOf records txid, ∀ r, Later records m.replacement r →
    r.status ∈ UNCONFIRMED_COMMITTED_STATUSES →
    ∃ m' ∈ matchesOf records txid, m'.status ≠ .indexed ∧ Walked records m'.replacement r

theorem mem_matchesOf {txid : String} {m : PendingRecord} (h : m ∈ matchesOf records txid) :
    m ∈ records ∧ m.hash = lower (some txid) := by
  obtain ⟨hm, htxid⟩ := List.mem_filter.mp h
  exact ⟨hm, congrArg lower (of_decide_eq_true htxid)⟩

theorem Later.mem (h : Later records next s) : s ∈ records := by
  induction h with
  | here _ hr _ => exact hr
  | onward _ _ _ ih => exact ih

theorem markPendingTxIndexed_retires {txid : String} (htxid : txid ≠ "") (opts : MarkOpts)
    (ledger : Ledger) (hchain : Chained ledger.records txid) :
    Triple (fun s => s = ledger) (markPendingTxIndexed txid opts)
      (fun _ s => Shape ledger.records (Retires ledger.records (matchesOf ledger.records txid)) s.records)
      fun _ => True := by
  rw [markPendingTxIndexed, if_neg htxid]
  refine triple_read_bind ?_
  rintro ledger rfl
  have hms : ∀ m ∈ matchesOf ledger.records txid, m ∈ ledger.records ∧ m.hash = lower (some txid) ∧
      Avoids ledger.records (lower (some txid)) m.replacement := fun m hm =>
    ⟨(mem_matchesOf hm).1, (mem_matchesOf hm).2, hchain m hm⟩
  refine (markMatches_retires opts ledger _ hms (fun _ => False) fun _ _ _ _ _ h => h.elim).mono ?_ ?_ ?_
  · rintro _ rfl
    exact shape_self
  · exact fun _ s hs => hs.congr fun r => ⟨fun h => h.resolve_left id, .inr⟩
  · exact fun _ _ => trivial

/-- **When a call clears the chain.** A call that resolves leaves no later member of a chain of the
transaction in a status that takes from a balance, if and only if the walks from its records that were
not indexed yet reach every such member. -/
theorem markPendingTxIndexed_clears_iff {txid : String} (htxid : txid ≠ "") (opts : MarkOpts)
    {w w' : Flaky Ledger} {changed : Bool} {n : List Empty} (hchain : Chained w.store.records txid)
    (hrun : (markPendingTxIndexed txid opts).run w = (.ok changed, w', n)) :
    Cleared w.store.records txid w'.store.records ↔ WalksReach w.store.records txid := by
  obtain ⟨g, hstored, hshape⟩ :=
    (markPendingTxIndexed_retires htxid opts w.store hchain).returns hrun rfl
  -- Of a later member exactly one version is stored, and it is not a record of the transaction.
  have hself : ∀ m ∈ matchesOf w.store.records txid, ∀ r, Later w.store.records m.replacement r →
      ∀ m' ∈ matchesOf w.store.records txid, r ≠ m' := by
    rintro m hm r hr m' hm' rfl
    exact hchain m hm r hr (mem_matchesOf hm').2
  constructor
  · intro hcleared m hm r hr hnetted
    by_contra hunreached
    have hkept : ¬ Retires w.store.records (matchesOf w.store.records txid) r := by
      rintro ⟨m', hm', hne, rfl | hwalked⟩
      · exact hself m hm r hr r hm' rfl
      · exact hunreached ⟨m', hm', hne, hwalked⟩
    have hmem : r ∈ w'.store.records := by
      rw [hstored, ← hshape.kept r hr.mem hkept]
      exact List.mem_map_of_mem hr.mem
    exact hcleared m hm r hr r hmem rfl hnetted
  · intro hreach m hm r hr s hs hid
    rw [hstored] at hs
    obtain ⟨q, hq, rfl⟩ := List.mem_map.mp hs
    have hqr : q = r := w.store.eq_of_key_eq hq hr.mem ((hshape.id_eq q hq).symm.trans hid)
    subst hqr
    intro hnetted
    by_cases hretires : Retires w.store.records (matchesOf w.store.records txid) q
    · rcases hshape.retired q hq hretires with hstatus | hstatus <;>
        exact absurd (hstatus ▸ hnetted) (by decide)
    · rw [hshape.kept q hq hretires] at hnetted
      obtain ⟨m', hm', hne, hwalked⟩ := hreach m hm q hr hnetted
      exact hretires ⟨m', hm', hne, .inr hwalked⟩

private def original : PendingRecord :=
  { id := "1", chain := "BTC", network := "mainnet", fromAddress := "a", txid := some "aa"
    status := .broadcast, rbfReplacement := some "bb" }

private def bump : PendingRecord :=
  { id := "2", chain := "BTC", network := "mainnet", fromAddress := "a", txid := some "bb"
    status := .broadcast }

private def bumped : Ledger := ⟨[original, bump], by decide⟩

private def atNoon : MarkOpts := { stamp := "2026-01-01T12:00:00.000Z" }

private theorem later_original {s : PendingRecord}
    (h : Later bumped.records original.replacement s) : s = bump := by
  have hnone : ∀ s, ¬ Later bumped.records bump.replacement s := by
    rintro s (⟨hnext, -, -⟩ | ⟨hr, hhash, -⟩)
    · exact hnext (by decide)
    · have hne : ∀ r ∈ bumped.records, r.hash ≠ bump.replacement := by decide
      exact hne _ hr hhash
  have honly : ∀ r ∈ bumped.records, r.hash = original.replacement → r = bump := by decide
  rcases h with ⟨-, hs, hhash⟩ | ⟨hr, hhash, hs⟩
  · exact honly s hs hhash
  · rw [honly _ hr hhash] at hs
    exact absurd hs (hnone s)

private theorem matches_bumped {m : PendingRecord} (h : m ∈ matchesOf bumped.records "aa") :
    m = original := by
  have honly : ∀ m ∈ matchesOf bumped.records "aa", m = original := by decide
  exact honly m h

private theorem chained_bumped : Chained bumped.records "aa" := by
  intro m hm s hs
  rw [matches_bumped hm] at hs
  rw [later_original hs]
  decide

/-- A bumped transaction that confirms takes its bump with it. -/
theorem markPendingTxIndexed_clears_iff_bumped :
    ∃ w' n, (markPendingTxIndexed "aa" atNoon).run ⟨bumped, fun _ => true⟩ = (.ok true, w', n) ∧
      Cleared bumped.records "aa" w'.store.records := by
  refine ⟨_, _, rfl, (markPendingTxIndexed_clears_iff (by decide) atNoon
    (w := ⟨bumped, fun _ => true⟩) chained_bumped rfl).mpr ?_⟩
  intro m hm r hr _
  have horiginal : original ∈ matchesOf bumped.records "aa" := by decide
  rw [matches_bumped hm] at hr
  refine ⟨original, horiginal, by decide, ?_⟩
  rw [later_original hr]
  exact .here (by decide) (by decide) (by decide)

/-- A call that resolves does not always clear the chain: where an earlier call stored the indexed
status and failed on the bump, the bump stays broadcast. -/
theorem not_markPendingTxIndexed_clears :
    ¬ ∀ (txid : String) (opts : MarkOpts) (w w₁ w₂ : Flaky Ledger) (e : WriteRefused) (changed : Bool)
      (n₁ n₂ : List Empty), txid ≠ "" → Chained w.store.records txid →
      (markPendingTxIndexed txid opts).run w = (.error e, w₁, n₁) →
      (markPendingTxIndexed txid opts).run w₁ = (.ok changed, w₂, n₂) →
      Cleared w.store.records txid w₂.store.records := by
  intro hclears
  have hcleared := hclears "aa" atNoon ⟨bumped, fun n => n ≠ 1⟩ _ _ .refused false _ _ (by decide)
    chained_bumped rfl rfl
  have horiginal : original ∈ matchesOf bumped.records "aa" := by decide
  have hlater : Later bumped.records original.replacement bump :=
    .here (by decide) (by decide) (by decide)
  exact hcleared original horiginal bump hlater bump (by decide) rfl (by decide)

end XchainWallet.PendingLedger
