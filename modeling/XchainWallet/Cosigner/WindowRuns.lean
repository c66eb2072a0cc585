import XchainWallet.Cosigner.WindowUsage

/-!
# The spending window over its runs

The invariant of a store over its port: what is in memory is what the ledger of loads and records has,
less what has left the window; a store that is not dirty is what the port would load; and a write
under way has what its revision had.
-/

namespace XchainWallet

open Checks Decimal VaultWindowStore Transition
open Option (filter_some isSome_none some.inj)

variable {w w' : WindowWorld}

/-! ### Pruning -/

namespace VaultWindowStore

variable {store : VaultWindowStore} {s : WindowState} {now : ℚ}

@[simp]
theorem hours_pruneAt : (store.pruneAt s now).hours = store.hours := by
  rw [pruneAt]
  split <;> rfl

@[simp]
theorem flushing_pruneAt : (store.pruneAt s now).flushing = store.flushing := by
  rw [pruneAt]
  split <;> rfl

theorem state_pruneAt (h : store.state = some s) :
    (store.pruneAt s now).state = some ⟨countedAt store.hours now s.entries, s.lastSeen⟩ := by
  rw [pruneAt]
  split
  · rename_i hlength
    have hsame : s.entries.filter (inWindow store.hours now) = s.entries :=
      List.filter_eq_self.mpr (List.length_filter_eq_length_iff.mp hlength)
    rw [h, countedAt, hsame]
  · rfl

/-- Either nothing has left the window, or the store is dirty under a new revision. -/
theorem pruneAt_cases (store : VaultWindowStore) (s : WindowState) (now : ℚ) :
    (store.pruneAt s now = store ∧ countedAt store.hours now s.entries = s.entries) ∨
      (store.pruneAt s now).dirty = true ∧ (store.pruneAt s now).revision = store.revision + 1 := by
  rw [pruneAt]
  split
  · rename_i hlength
    have hall := List.length_filter_eq_length_iff.mp hlength
    exact .inl ⟨rfl, List.filter_eq_self.mpr hall⟩
  · exact .inr ⟨rfl, rfl⟩

end VaultWindowStore

/-! ### The invariant -/

namespace WindowWorld

structure Ok (w : WindowWorld) : Prop where
  valid : ∀ s, w.store.state = some s → s.Valid
  clean : ∀ s, w.store.state = some s → w.store.dirty = false →
    ∃ d, decodeState w.persisted = .ok d ∧ d.entries = s.entries
  flushing : ∀ revision f, w.store.flushing = some (revision, f) →
    f.Valid ∧ w.store.dirty = true ∧ revision ≤ w.store.revision ∧
      ∀ s, w.store.state = some s → revision = w.store.revision → f.entries = s.entries
  idle : w.store.state = none → w.store.flushing = none
  ledger : w.ledger.Perm (w.entries ++ w.left.map Prod.fst)
  left : ∀ p ∈ w.left, p.1.t < p.2 - w.store.hours * 3600 * 1000

theorem entries_of_state {s : WindowState} (h : w.store.state = some s) :
    w.entries = s.entries := by
  simp [entries, h]

/-- A filter and what it leaves out. -/
theorem perm_filter (p : WindowEntry → Bool) (es : List WindowEntry) :
    es.Perm (es.filter p ++ es.filter fun e => !p e) := by
  induction es with
  | nil => rfl
  | cons e es ih =>
    cases h : p e with
    | true =>
      simp only [List.filter_cons, h]
      exact ih.cons e
    | false =>
      simp only [List.filter_cons, h]
      exact (ih.cons e).trans List.perm_middle.symm

/-- The world after a pruning. -/
def pruned (w : WindowWorld) (s : WindowState) (now : ℚ) : WindowWorld :=
  { w with
    store := w.store.pruneAt s now,
    left := w.left ++ (s.entries.filter fun e => !inWindow w.store.hours now e).map (·, now) }

/-- **Pruning drops what has left the window.** -/
theorem Ok.pruned {s : WindowState} (hok : w.Ok) (hs : w.store.state = some s) (now : ℚ) :
    (w.pruned s now).Ok := by
  have hstate : (w.pruned s now).store.state =
      some ⟨countedAt w.store.hours now s.entries, s.lastSeen⟩ := state_pruneAt hs
  have hvalid := hok.valid s hs
  refine ⟨?_, ?_, ?_, ?_, ?_, ?_⟩
  · intro s' hs'
    obtain rfl := some.inj (hstate.symm.trans hs')
    exact ⟨fun e he => hvalid.1 e (List.mem_of_mem_filter he), hvalid.2⟩
  · intro s' hs' hclean
    obtain rfl := some.inj (hstate.symm.trans hs')
    rcases w.store.pruneAt_cases s now with ⟨hsame, hcounted⟩ | ⟨hdirty, -⟩
    · have hclean : w.store.dirty = false := by
        rw [← hsame]
        exact hclean
      obtain ⟨d, hd, hentries⟩ := hok.clean s hs hclean
      exact ⟨d, hd, hentries.trans hcounted.symm⟩
    · have hclean : (w.store.pruneAt s now).dirty = false := hclean
      rw [hdirty] at hclean
      cases hclean
  · intro revision f hf
    have hf : w.store.flushing = some (revision, f) := by
      exact flushing_pruneAt.symm.trans hf
    obtain ⟨hvalidF, hdirty, hle, hcurrent⟩ := hok.flushing revision f hf
    rcases w.store.pruneAt_cases s now with ⟨hsame, hcounted⟩ | ⟨hmarked, hrevision⟩
    · refine ⟨hvalidF, ?_, ?_, ?_⟩
      · simpa [WindowWorld.pruned, hsame] using hdirty
      · simpa [WindowWorld.pruned, hsame] using hle
      · intro s' hs' hrev
        obtain rfl := some.inj (hstate.symm.trans hs')
        rw [hcurrent s hs (by simpa [WindowWorld.pruned, hsame] using hrev)]
        exact hcounted.symm
    · have hrev : (w.pruned s now).store.revision = w.store.revision + 1 := hrevision
      refine ⟨hvalidF, hmarked, by omega, ?_⟩
      intro s' _ hsame
      omega
  · intro hnone
    rw [hstate] at hnone
    cases hnone
  · have hentries : (w.pruned s now).entries = countedAt w.store.hours now s.entries :=
      entries_of_state hstate
    have hledger := hok.ledger
    rw [entries_of_state hs] at hledger
    rw [hentries]
    refine hledger.trans (((perm_filter (inWindow w.store.hours now) s.entries).append_right
      _).trans ?_)
    simp only [WindowWorld.pruned, List.map_append, List.map_map, Function.comp_def, List.map_id',
      List.append_assoc]
    exact (List.perm_append_comm).append_left _
  · intro p hp
    rw [WindowWorld.pruned, hours_pruneAt]
    rcases List.mem_append.mp hp with hp | hp
    · exact hok.left p hp
    · obtain ⟨e, he, rfl⟩ := List.mem_map.mp hp
      obtain ⟨-, hout⟩ := List.mem_filter.mp he
      simp only [inWindow, Bool.not_eq_true', decide_eq_false_iff_not, not_le] at hout
      exact hout

/-- The world after an entry was appended. -/
def appended (w : WindowWorld) (s : WindowState) (e : WindowEntry) (lastSeen : ℚ) : WindowWorld :=
  { w with
    store := { w.store with state := some ⟨s.entries ++ [e], some lastSeen⟩ }.markDirty,
    ledger := w.ledger ++ [e] }

theorem Ok.appended {s : WindowState} (hok : w.Ok) (hs : w.store.state = some s)
    {e : WindowEntry} (he : e.Valid) {lastSeen : ℚ} (hseen : 0 ≤ lastSeen) :
    (w.appended s e lastSeen).Ok := by
  have hvalid := hok.valid s hs
  refine ⟨?_, ?_, ?_, nofun, ?_, hok.left⟩
  · intro s' hs'
    obtain ⟨⟩ := hs'
    refine ⟨?_, ?_⟩
    · intro f hf
      rcases List.mem_append.mp hf with hf | hf
      · exact hvalid.1 f hf
      · rw [List.mem_singleton.mp hf]
        exact he
    · intro seen hmem
      rwa [← Option.mem_some_iff.mp hmem]
  · intro s' _ hclean
    cases hclean
  · intro revision f hf
    obtain ⟨hvalidF, -, hle, -⟩ := hok.flushing revision f hf
    have hrevision : (w.appended s e lastSeen).store.revision = w.store.revision + 1 := rfl
    refine ⟨hvalidF, rfl, by omega, ?_⟩
    intro s' _ hsame
    omega
  · have hledger := hok.ledger
    rw [entries_of_state hs] at hledger
    have hentries : (w.appended s e lastSeen).entries = s.entries ++ [e] := rfl
    rw [hentries]
    refine (hledger.append_right [e]).trans ?_
    rw [List.append_assoc, List.append_assoc]
    exact (List.perm_append_comm).append_left _

/-! ### Steps -/

theorem clamp_valid {now t : ℚ} (hnow : 0 ≤ now) (ht : 0 ≤ t) : 0 ≤ clampTime now t := by
  rw [clampTime]
  split
  · exact hnow
  · exact ht

theorem WindowState.clamp_valid {s : WindowState} {now : ℚ} (hnow : 0 ≤ now) (h : s.Valid) :
    (s.clamp now).Valid := by
  refine ⟨?_, ?_⟩
  · intro e he
    obtain ⟨f, hf, rfl⟩ := List.mem_map.mp he
    exact ⟨WindowWorld.clamp_valid hnow (h.1 f hf).1, (h.1 f hf).2⟩
  · intro seen hseen
    obtain ⟨t, ht, rfl⟩ := Option.map_eq_some_iff.mp hseen
    exact WindowWorld.clamp_valid hnow (h.2 t ht)

variable {clock : Option ℚ}

@[simp]
theorem readNow_eq_ok {now : ℚ} : readNow clock = .ok now ↔ clock = some now ∧ 0 ≤ now := by
  rw [readNow, orRefuse_eq_ok]
  cases clock with
  | none => simp
  | some t =>
    by_cases ht : 0 ≤ t
    · simp only [filter_some, ht, decide_true, if_true, Option.some.injEq]
      constructor
      · rintro rfl
        exact ⟨rfl, ht⟩
      · exact And.left
    · simp only [filter_some, ht, decide_false, Option.some.injEq]
      constructor
      · intro h
        cases h
      · rintro ⟨rfl, hpos⟩
        exact absurd hpos ht

/-- A load that has gone through. -/
theorem loadState_cases (store : VaultWindowStore) (read : Except String RawState)
    (clock : Option ℚ) :
    (store.loadState read clock).1 = store ∨
      (∃ raw d s, read = .ok raw ∧ decodeState raw = .ok d ∧ s.Valid ∧
        (store.loadState read clock).1.state = some s ∧
        (store.loadState read clock).1.flushing = store.flushing ∧
        (store.loadState read clock).1.hours = store.hours ∧
        store.revision ≤ (store.loadState read clock).1.revision ∧
        ((store.loadState read clock).1.dirty = false → d.entries = s.entries)) := by
  cases read with
  | error message => exact .inl rfl
  | ok raw =>
    cases hdecode : decodeState raw with
    | error err =>
      left
      cases raw with
      | null => cases hdecode
      | other => simp [loadState, hdecode]
      | window r => simp [loadState, hdecode]
    | ok d =>
      have hvalid := valid_of_decodeState hdecode
      cases raw with
      | null =>
        cases hdecode
        exact .inr ⟨.null, _, ⟨[], none⟩, rfl, rfl, ⟨nofun, nofun⟩, rfl, rfl, rfl,
          Nat.le_refl _, fun _ => rfl⟩
      | other => cases hdecode
      | window r =>
        cases hnow : readNow clock with
        | error err => exact .inl (by simp [loadState, hdecode, hnow])
        | ok now =>
          obtain ⟨-, hpos⟩ := readNow_eq_ok.mp hnow
          right
          refine ⟨.window r, d, d.clamp now, rfl, hdecode, WindowState.clamp_valid hpos hvalid, ?_⟩
          simp only [loadState, hdecode, hnow]
          by_cases hsame : d.clamp now = d
          · rw [if_pos hsame]
            exact ⟨rfl, rfl, rfl, Nat.le_refl _, fun _ => congrArg _ hsame.symm⟩
          · rw [if_neg hsame]
            exact ⟨rfl, rfl, rfl, Nat.le_succ _, nofun⟩

theorem Ok.load (hok : w.Ok) {fault : Option String} (hnone : w.store.state = none)
    (hstep : w.step (.load fault clock) = some w') : w'.Ok := by
  simp only [step, hnone, isSome_none, if_false, Bool.false_eq_true] at hstep
  obtain ⟨⟩ := hstep
  have hidle := hok.idle hnone
  have hload : ∀ read, w.store.load read clock = w.store.loadState read clock := by
    intro read
    rw [VaultWindowStore.load, hnone]
    rfl
  simp only [hload]
  rcases loadState_cases w.store (fault.elim (.ok w.persisted) .error) clock with
    hsame | ⟨raw, d, s, hread, hdecode, hvalid, hstate, hflushing, hhours, -, hclean⟩
  · rw [hsame]
    refine ⟨?_, ?_, ?_, fun _ => hidle, ?_, nofun⟩
    · intro s hs
      rw [hnone] at hs
      cases hs
    · intro s hs
      rw [hnone] at hs
      cases hs
    · intro revision f hf
      rw [hidle] at hf
      cases hf
    · simp [entries]
  · refine ⟨?_, ?_, ?_, ?_, ?_, nofun⟩
    · intro s' hs'
      obtain rfl := some.inj (hstate.symm.trans hs')
      exact hvalid
    · intro s' hs' hdirty
      obtain rfl := some.inj (hstate.symm.trans hs')
      have hraw : raw = w.persisted := by
        cases fault with
        | none => exact (Except.ok.inj hread).symm
        | some message => cases hread
      exact ⟨d, hraw ▸ hdecode, hclean hdirty⟩
    · intro revision f hf
      rw [hflushing, hidle] at hf
      cases hf
    · intro h
      rw [hstate] at h
      cases h
    · simp [entries]

theorem Ok.record (hok : w.Ok) {action tick amount txid : RawField} {clock clock' : Option ℚ}
    (hstep : w.step (.record action tick amount txid clock clock') = some w') : w'.Ok := by
  have hunchanged : ∀ v : WindowWorld, v = { w with left := w.left ++ [] } → v.Ok := by
    rintro v rfl
    rwa [List.append_nil]
  simp only [step, VaultWindowStore.record] at hstep
  cases hs : w.store.state with
  | none =>
    simp only [hs, isSome_none, Bool.false_eq_true, false_and, if_false] at hstep
    exact hunchanged w' (some.inj hstep).symm
  | some s =>
    cases hentry : validateEntry plainWindowError 0 action tick amount txid with
    | error err =>
      simp only [hs, hentry, Except.isOk, Except.toBool, Bool.false_eq_true, and_false,
        if_false] at hstep
      exact hunchanged w' (some.inj hstep).symm
    | ok e =>
      cases hnow : readNow clock with
      | error err =>
        have hdropped : w.dropped clock = [] := by
          rw [dropped]
          split
          · rfl
          · rename_i now hfilter
            have hread : readNow clock = .ok now := by rw [readNow, hfilter]; rfl
            rw [hnow] at hread
            cases hread
        simp only [hs, hentry, hnow, hdropped, ite_self] at hstep
        exact hunchanged w' (some.inj hstep).symm
      | ok now =>
        obtain ⟨rfl, hpos⟩ := readNow_eq_ok.mp hnow
        have hpruned := hok.pruned hs now
        have hstate : (w.store.pruneAt s now).state = _ := state_pruneAt hs
        have hdropped : w.left ++ w.dropped (some now) = (w.pruned s now).left := by
          simp [dropped, hpos, filter_some, entries, hs, WindowWorld.pruned]
        simp only [hs, hentry, hnow, hstate, Except.isOk, Except.toBool, Option.isSome_some,
          and_self, if_true, hdropped] at hstep
        cases hnow' : readNow clock' with
        | error err =>
          simp only [hnow'] at hstep
          obtain ⟨⟩ := hstep
          exact hpruned
        | ok now' =>
          obtain ⟨rfl, hpos'⟩ := readNow_eq_ok.mp hnow'
          simp only [hnow'] at hstep
          obtain ⟨⟩ := hstep
          have hvalid : WindowEntry.Valid { e with t := now' } :=
            ⟨hpos', (valid_of_validateEntry hentry).2⟩
          have hseen : 0 ≤ max now' (s.lastSeen.getD now') := le_max_of_le_left hpos'
          have happended := hpruned.appended hstate hvalid hseen
          have hlast : ∀ es : List WindowEntry, ∀ f : WindowEntry,
              (es ++ [f]).getLast?.toList = [f] := by
            intro es f
            simp
          simpa [WindowWorld.appended, WindowWorld.pruned, entries, markDirty, hlast] using happended

theorem Ok.snapshot (hok : w.Ok) (hstep : w.step (.snapshot clock) = some w') : w'.Ok := by
  simp only [step, VaultWindowStore.snapshot] at hstep
  obtain ⟨⟩ := hstep
  cases hs : w.store.state with
  | none => simpa [hs] using hok
  | some s =>
    cases hnow : readNow clock with
    | error err =>
      have hdropped : w.dropped clock = [] := by
        rw [dropped]
        split
        · rfl
        · rename_i now hfilter
          have hread : readNow clock = .ok now := by rw [readNow, hfilter]; rfl
          rw [hnow] at hread
          cases hread
      simpa [hs, hdropped] using hok
    | ok now =>
      obtain ⟨rfl, hpos⟩ := readNow_eq_ok.mp hnow
      have hpruned := hok.pruned hs now
      simpa [dropped, hpos, filter_some, entries, hs, WindowWorld.pruned] using hpruned

theorem Ok.flush (hok : w.Ok) (hstep : w.step (.flush clock) = some w') : w'.Ok := by
  simp only [step] at hstep
  obtain ⟨⟩ := hstep
  rw [VaultWindowStore.flushTurn]
  split
  · exact hok
  · exact hok
  · rename_i s hs hflushing
    split
    · exact hok
    · rename_i hdirty
      split
      · exact hok
      · rename_i lastSeen hseen
        have hvalid := hok.valid s hs
        have hpos : 0 ≤ lastSeen := by
          cases hlast : s.lastSeen with
          | none =>
            rw [hlast] at hseen
            exact (readNow_eq_ok.mp hseen).2
          | some seen =>
            rw [hlast] at hseen
            cases hseen
            exact hvalid.2 lastSeen hlast
        refine ⟨hok.valid, hok.clean, ?_, ?_, hok.ledger, hok.left⟩
        · intro revision f hf
          cases hf
          refine ⟨⟨hvalid.1, ?_⟩, by simpa using hdirty, Nat.le_refl _, ?_⟩
          · intro seen hmem
            rwa [← Option.mem_some_iff.mp hmem]
          · intro s' hs' _
            obtain rfl := some.inj (hs.symm.trans hs')
            rfl
        · intro h
          rw [show _ = _ from hs] at h
          cases h

theorem Ok.written (hok : w.Ok) {ok stored : Bool}
    (hstep : w.step (.written ok stored) = some w') : w'.Ok := by
  simp only [step] at hstep
  split at hstep
  · cases hstep
  · rename_i revision f hflushing
    obtain ⟨⟩ := hstep
    obtain ⟨hvalidF, hdirty, -, hcurrent⟩ := hok.flushing revision f hflushing
    refine ⟨hok.valid, ?_, nofun, fun _ => rfl, hok.ledger, hok.left⟩
    intro s hs hclean
    have hs : w.store.state = some s := hs
    simp only [VaultWindowStore.written] at hclean
    by_cases hdone : ok = true ∧ w.store.revision = revision
    · simp only [hdone.1, true_or, if_true]
      exact ⟨f, decodeState_toRaw hvalidF, hcurrent s hs hdone.2.symm⟩
    · rw [if_neg hdone, hdirty] at hclean
      cases hclean

theorem Ok.reopen {hours : ℚ} (hstep : w.step (.reopen hours) = some w') : w'.Ok := by
  simp only [step] at hstep
  split at hstep
  · rename_i store hflushing hcreate
    obtain ⟨⟩ := hstep
    rw [create] at hcreate
    split at hcreate
    · cases hcreate
      exact ⟨nofun, nofun, nofun, fun _ => rfl, by simp [entries], nofun⟩
    · cases hcreate
  · cases hstep

theorem Ok.step (hok : w.Ok) {a : WindowAct} (hstep : w.step a = some w') : w'.Ok := by
  cases a with
  | load fault clock =>
    cases hs : w.store.state with
    | none => exact hok.load hs hstep
    | some s =>
      simp only [WindowWorld.step, hs, Option.isSome_some, if_true] at hstep
      exact some.inj hstep ▸ hok
  | snapshot clock => exact hok.snapshot hstep
  | record action tick amount txid clock clock' => exact hok.record hstep
  | flush clock => exact hok.flush hstep
  | written ok stored => exact hok.written hstep
  | reopen hours => exact Ok.reopen hstep

/-- A store over what its port has, before its first load. -/
def fresh (persisted : RawState) (store : VaultWindowStore) : WindowWorld :=
  ⟨persisted, store, [], []⟩

/-- A time in the future is in the window as the time of the clock is. -/
theorem inWindow_clamp {hours now : ℚ} (hhours : 0 < hours) (e : WindowEntry) :
    inWindow hours now (e.clamp now) = inWindow hours now e := by
  rw [inWindow, inWindow, WindowEntry.clamp]
  simp only [decide_eq_decide]
  by_cases hfuture : now + clockSkewToleranceMs < e.t
  · have htolerance : (0 : ℚ) < clockSkewToleranceMs := by norm_num [clockSkewToleranceMs]
    simp only [clampTime, if_pos hfuture]
    constructor
    · intro _
      nlinarith
    · intro _
      nlinarith
  · simp only [clampTime, if_neg hfuture]

theorem countedAt_clamp {hours now : ℚ} (hhours : 0 < hours) (entries : List WindowEntry) :
    countedAt hours now (entries.map (WindowEntry.clamp now)) =
      (countedAt hours now entries).map (WindowEntry.clamp now) := by
  rw [countedAt, countedAt, List.filter_map]
  congr 2
  funext e
  exact inWindow_clamp hhours e

theorem totalOf_clamp (now : ℚ) (bucket : List Char) (entries : List WindowEntry) :
    totalOf bucket (entries.map (WindowEntry.clamp now)) = totalOf bucket entries := by
  rw [totalOf, totalOf, List.filter_map, List.map_map]
  rfl

/-- The window that a load gives is the same as the flushed one: its entries, with those of the
future at the time of the clock, and its usage at that time. -/
structure SameWindow (hours now : ℚ) (flushed loaded : List WindowEntry) : Prop where
  entries : loaded = flushed.map (WindowEntry.clamp now)
  unclamped : (∀ e ∈ flushed, e.t ≤ now + clockSkewToleranceMs) → loaded = flushed
  count : (countedAt hours now loaded).length = (countedAt hours now flushed).length
  total : ∀ bucket, totalOf bucket (countedAt hours now loaded) =
    totalOf bucket (countedAt hours now flushed)

theorem sameWindow_clamp {hours now : ℚ} (hhours : 0 < hours) (entries : List WindowEntry) :
    SameWindow hours now entries (entries.map (WindowEntry.clamp now)) where
  entries := rfl
  unclamped := by
    intro hall
    refine (List.map_congr_left fun e he => ?_).trans (List.map_id entries)
    rw [WindowEntry.clamp, clampTime, if_neg (not_lt.mpr (hall e he))]
    rfl
  count := by rw [countedAt_clamp hhours, List.length_map]
  total := by
    intro bucket
    rw [countedAt_clamp hhours, totalOf_clamp]

/-! ### What a store promises -/

/-- What holds of a store over its port: what a flushed store gives a later one, what a snapshot
has, what the ledger is against memory, and what a corrupt state gives. -/
structure Safe (w : WindowWorld) : Prop where
  reload : ∀ s, w.store.state = some s → w.store.dirty = false →
    ∀ later : VaultWindowStore, later.state = none → ∀ now, 0 ≤ now →
      ∃ loaded, (later.load (.ok w.persisted) (some now)).1.state = some loaded ∧
        SameWindow later.hours now s.entries loaded.entries
  snapshot : ∀ s, w.store.state = some s → ∀ now, 0 ≤ now →
    ∃ usage, (w.store.snapshot (some now)).2 = .ok usage ∧
      usage.count = (countedAt w.store.hours now s.entries).length ∧
      TotalsAre usage.perTick (countedAt w.store.hours now s.entries)
  unpruned : ∀ now bucket, totalOf bucket (countedAt w.store.hours now w.ledger) =
    totalOf bucket (countedAt w.store.hours now w.entries) +
      totalOf bucket (countedAt w.store.hours now (w.left.map Prod.fst))
  left : ∀ p ∈ w.left, p.1.t < p.2 - w.store.hours * 3600 * 1000
  corrupt : ¬w.persisted.WellFormed → ∀ later : VaultWindowStore, later.state = none →
    ∀ clock, (later.load (.ok w.persisted) clock).1.state = none ∧
      ∃ err, (later.load (.ok w.persisted) clock).2 = .error err

theorem Ok.safe (hok : w.Ok) : w.Safe where
  reload := by
    intro s hs hclean later hnone now hnow
    obtain ⟨d, hdecode, hentries⟩ := hok.clean s hs hclean
    have hread : readNow (some now) = .ok now := readNow_eq_ok.mpr ⟨rfl, hnow⟩
    have hsame : SameWindow later.hours now s.entries (s.entries.map (WindowEntry.clamp now)) :=
      sameWindow_clamp later.hours_pos s.entries
    rw [VaultWindowStore.load, hnone]
    cases hpersisted : w.persisted with
    | null =>
      rw [hpersisted] at hdecode
      cases hdecode
      refine ⟨⟨[], none⟩, rfl, ?_⟩
      rw [← hentries] at hsame ⊢
      exact hsame
    | other =>
      rw [hpersisted] at hdecode
      cases hdecode
    | window r =>
      rw [hpersisted] at hdecode
      refine ⟨d.clamp now, ?_, ?_⟩
      · simp only [isSome_none, Bool.false_eq_true, if_false, loadState, hdecode, hread]
        split <;> rfl
      · rw [← hentries] at hsame ⊢
        exact hsame
  snapshot := by
    intro s hs now hnow
    have hvalid := hok.valid s hs
    have hread : readNow (some now) = .ok now := readNow_eq_ok.mpr ⟨rfl, hnow⟩
    have hcounted : ∀ e ∈ countedAt w.store.hours now s.entries, e.Valid := fun e he =>
      hvalid.1 e (List.mem_of_mem_filter he)
    obtain ⟨usage, husage, hcount, htotals⟩ := usageOf_totals hcounted
    refine ⟨usage, ?_, hcount, htotals⟩
    simp [VaultWindowStore.snapshot, hs, hread, state_pruneAt hs, husage]
  unpruned := by
    intro now bucket
    have hcounted := hok.ledger.filter (inWindow w.store.hours now)
    rw [List.filter_append] at hcounted
    exact (totalOf_perm hcounted).trans (totalOf_append bucket _ _)
  left := hok.left
  corrupt := by
    intro hcorrupt later hnone clock
    have hload : ∃ err, later.loadState (.ok w.persisted) clock = (later, .error err) := by
      have hfails : ∀ s, decodeState w.persisted ≠ .ok s := fun s hs =>
        hcorrupt (decodeState_isOk.mp ⟨s, hs⟩)
      cases hdecode : decodeState w.persisted with
      | ok s => exact absurd hdecode (hfails s)
      | error err =>
        refine ⟨err, ?_⟩
        cases hpersisted : w.persisted with
        | null => exact absurd (by rw [hpersisted]; trivial) hcorrupt
        | other | window r =>
          rw [hpersisted] at hdecode
          simp [loadState, hdecode]
    obtain ⟨err, herr⟩ := hload
    rw [VaultWindowStore.load, hnone]
    simp only [isSome_none, Bool.false_eq_true, if_false, herr]
    exact ⟨hnone, err, rfl⟩

private def charged : List WindowAct :=
  [.load none (some 4000000),
    .record (.text ['S', 'E', 'N', 'D']) (.text ['X', 'C', 'P']) (.text ['5']) .missing
      (some 4000000) (some 4000000),
    .flush (some 4000000), .written true true, .flush (some 4000000)]

end WindowWorld

end XchainWallet
