import Mathlib.Algebra.Order.BigOperators.Group.List
import XchainWallet.Cosigner.WindowStore
import XchainWallet.Decimal.Canonical
import XchainWallet.Transition.Run

/-!
# What the spending window counts

`totalOf` is the exact sum of the amounts in a bucket. A snapshot has it for every bucket, over the
entries that are in the window; what a snapshot or a record drops is what has left the window; a state
that was flushed is read back as it is, but for times that lie in the future; and a stored state that
is not well formed is refused.
-/

namespace XchainWallet

open Checks Decimal VaultWindowStore

/-! ### Totals -/

/-- The number that an entry adds. -/
def WindowEntry.value (e : WindowEntry) : ℚ := (e.amount.bind decimal).getD 0

/-- The entries that count at a time. -/
def countedAt (hours now : ℚ) (entries : List WindowEntry) : List WindowEntry :=
  entries.filter (inWindow hours now)

/-- The sum of the amounts in a bucket. -/
def totalOf (bucket : List Char) (entries : List WindowEntry) : ℚ :=
  ((entries.filter (·.bucket = bucket)).map WindowEntry.value).sum

/-- An entry with an amount is in the bucket. -/
def HasTotal (bucket : List Char) (entries : List WindowEntry) : Prop :=
  ∃ e ∈ entries, e.bucket = bucket ∧ e.amount.isSome

instance (bucket : List Char) (entries : List WindowEntry) : Decidable (HasTotal bucket entries) :=
  inferInstanceAs (Decidable (∃ e ∈ entries, _ ∧ _))

theorem totalOf_append (bucket : List Char) (es fs : List WindowEntry) :
    totalOf bucket (es ++ fs) = totalOf bucket es + totalOf bucket fs := by
  simp [totalOf]

theorem totalOf_perm {bucket : List Char} {es fs : List WindowEntry} (h : es.Perm fs) :
    totalOf bucket es = totalOf bucket fs :=
  ((h.filter _).map _).sum_eq

/-- An entry that may be in a state. -/
def WindowEntry.Valid (e : WindowEntry) : Prop :=
  0 ≤ e.t ∧ ∀ amount ∈ e.amount, ∃ d, toScaled (jsTrim amount) = some d ∧ 0 ≤ d.value

theorem jsTrim_fromScaled (value : ℤ) (scale : ℕ) :
    jsTrim (fromScaled value scale) = fromScaled value scale := by
  refine jsTrim_eq_self _ fun c hc => ?_
  rcases mem_fromScaled hc with hdigit | rfl | rfl
  · have hrange : 48 ≤ c.toNat ∧ c.toNat ≤ 57 := by
      simp only [Char.isDigit, Bool.and_eq_true, decide_eq_true_eq] at hdigit
      exact ⟨hdigit.1, hdigit.2⟩
    simp only [isJsSpace, decide_eq_false_iff_not, not_or, List.mem_cons, List.not_mem_nil,
      or_false, not_and]
    omega
  · decide
  · decide

theorem decimal_zero : decimal ['0'] = some 0 := by
  obtain ⟨d, hd, hvalue⟩ := denotes_fromScaled 0 0
  have htext : fromScaled 0 0 = ['0'] := by decide
  rw [← htext, decimal, jsTrim_fromScaled, hd, Option.map_some, hvalue]
  simp

/-- **The sum of two texts is exact.** -/
theorem addDecimalStrings_exact {a b : List Char} {x y : ℚ} (ha : decimal a = some x)
    (hb : decimal b = some y) : ∃ c, addDecimalStrings a b = some c ∧ decimal c = some (x + y) := by
  obtain ⟨da, hda, rfl⟩ := Option.map_eq_some_iff.mp ha
  obtain ⟨db, hdb, rfl⟩ := Option.map_eq_some_iff.mp hb
  obtain ⟨d, hd, hvalue⟩ := denotes_fromScaled (da.add db).value (da.add db).scale
  refine ⟨fromScaled (da.add db).value (da.add db).scale, ?_, ?_⟩
  · simp [addDecimalStrings, hda, hdb]
  · rw [decimal, jsTrim_fromScaled, hd, Option.map_some, hvalue, ← Scaled.toRat_add]
    rfl

/-- Texts of totals, as numbers. -/
def TotalsAre (perTick : List (List Char × List Char)) (entries : List WindowEntry) : Prop :=
  ∀ bucket, (Keyed.find Prod.fst bucket perTick).map (fun p => decimal p.2) =
    if HasTotal bucket entries then some (some (totalOf bucket entries)) else none

variable {e : WindowEntry}

theorem hasTotal_append {bucket : List Char} {es : List WindowEntry} : HasTotal bucket (es ++ [e]) ↔
      HasTotal bucket es ∨ e.bucket = bucket ∧ e.amount.isSome := by
  simp only [HasTotal, List.mem_append, List.mem_singleton]
  constructor
  · rintro ⟨f, hf | rfl, hbucket⟩
    · exact .inl ⟨f, hf, hbucket⟩
    · exact .inr hbucket
  · rintro (⟨f, hf, hbucket⟩ | hbucket)
    · exact ⟨f, .inl hf, hbucket⟩
    · exact ⟨e, .inr rfl, hbucket⟩

theorem totalOf_singleton (bucket : List Char) (e : WindowEntry) :
    totalOf bucket [e] = if e.bucket = bucket then e.value else 0 := by
  by_cases h : e.bucket = bucket <;> simp [totalOf, h]

theorem value_of_valid (he : e.Valid) {amount : List Char} (hamount : e.amount = some amount) :
    decimal amount = some e.value ∧ 0 ≤ e.value := by
  obtain ⟨d, hd, hpos⟩ := he.2 amount hamount
  have hdecimal : decimal amount = some d.toRat := by rw [decimal, hd, Option.map_some]
  have hvalue : e.value = d.toRat := by
    rw [WindowEntry.value, hamount, Option.bind_some, hdecimal, Option.getD_some]
  refine ⟨by rw [hvalue, hdecimal], ?_⟩
  rw [hvalue, Scaled.toRat]
  exact div_nonneg (by exact_mod_cast hpos) (by positivity)

theorem value_of_none (hamount : e.amount = none) : e.value = 0 := by
  rw [WindowEntry.value, hamount]
  rfl

/-- Without an amount in a bucket its total is zero. -/
theorem totalOf_eq_zero {bucket : List Char} {es : List WindowEntry} (h : ¬HasTotal bucket es) :
    totalOf bucket es = 0 := by
  refine List.sum_eq_zero fun x hx => ?_
  obtain ⟨e, he, rfl⟩ := List.mem_map.mp hx
  obtain ⟨hmem, hbucket⟩ := List.mem_filter.mp he
  cases hamount : e.amount with
  | none => exact value_of_none hamount
  | some amount => exact absurd ⟨e, hmem, by simpa using hbucket, by simp [hamount]⟩ h

/-- One entry more, step of the sum. -/
theorem addAmount_totals {perTick : List (List Char × List Char)} {es : List WindowEntry}
    (hes : TotalsAre perTick es) (he : e.Valid) :
    ∃ perTick', addAmount perTick e = some perTick' ∧ TotalsAre perTick' (es ++ [e]) := by
  cases hamount : e.amount with
  | none =>
    refine ⟨perTick, by rw [addAmount, hamount], ?_⟩
    intro bucket
    have hsame : totalOf bucket (es ++ [e]) = totalOf bucket es := by
      rw [totalOf_append, totalOf_singleton, value_of_none hamount]
      simp
    have hhas : HasTotal bucket (es ++ [e]) ↔ HasTotal bucket es := by
      rw [hasTotal_append, hamount]
      simp
    rw [hes bucket, hsame]
    simp only [hhas]
  | some amount =>
    obtain ⟨hdecimal, -⟩ := value_of_valid he hamount
    -- what the bucket has so far, zero where it has nothing
    have hused : decimal (((Keyed.find Prod.fst e.bucket perTick).map Prod.snd).getD ['0']) =
        some (totalOf e.bucket es) := by
      have hfound := hes e.bucket
      cases hfind : Keyed.find Prod.fst e.bucket perTick with
      | none =>
        have hnot : ¬HasTotal e.bucket es := by
          intro hhas
          rw [hfind, if_pos hhas] at hfound
          cases hfound
        rw [totalOf_eq_zero hnot]
        exact decimal_zero
      | some p =>
        rw [hfind] at hfound
        by_cases hhas : HasTotal e.bucket es
        · rw [if_pos hhas] at hfound
          exact Option.some.inj hfound
        · rw [if_neg hhas] at hfound
          cases hfound
    obtain ⟨total, htotal, hvalue⟩ := addDecimalStrings_exact hused hdecimal
    refine ⟨Keyed.upsert Prod.fst (e.bucket, total) perTick, ?_, ?_⟩
    · simp [addAmount, hamount, htotal]
    · intro bucket
      by_cases hbucket : bucket = e.bucket
      · subst hbucket
        have hhas : HasTotal e.bucket (es ++ [e]) :=
          Iff.mpr hasTotal_append (.inr ⟨rfl, by simp [hamount]⟩)
        have hfind : Keyed.find Prod.fst e.bucket (Keyed.upsert Prod.fst (e.bucket, total) perTick) =
            some (e.bucket, total) := Keyed.find_upsert_self (e.bucket, total) perTick
        rw [hfind, if_pos hhas, totalOf_append, totalOf_singleton, if_pos rfl]
        simpa using hvalue
      · have hne : e.bucket ≠ bucket := fun h => hbucket h.symm
        have hhas : HasTotal bucket (es ++ [e]) ↔ HasTotal bucket es := by
          rw [hasTotal_append]
          simp [hne]
        have hkey : bucket ≠ Prod.fst (e.bucket, total) := hbucket
        have hfind : Keyed.find Prod.fst bucket (Keyed.upsert Prod.fst (e.bucket, total) perTick) =
            Keyed.find Prod.fst bucket perTick := Keyed.find_upsert_of_ne hkey perTick
        rw [hfind, hes bucket, totalOf_append, totalOf_singleton, if_neg hne, add_zero]
        simp only [hhas]

/-- **A usage has the exact total of every bucket.** -/
theorem usageOf_totals {entries : List WindowEntry} (h : ∀ e ∈ entries, e.Valid) :
    ∃ usage, usageOf entries = .ok usage ∧ usage.count = entries.length ∧
      TotalsAre usage.perTick entries := by
  have hfold : ∀ es fs : List WindowEntry, (∀ e ∈ fs, e.Valid) → ∀ perTick, TotalsAre perTick es →
        ∃ perTick', fs.foldlM addAmount perTick = some perTick' ∧
          TotalsAre perTick' (es ++ fs) := by
    intro es fs
    induction fs generalizing es with
    | nil =>
      intro _ perTick hes
      exact ⟨perTick, rfl, by rwa [List.append_nil]⟩
    | cons e fs ih =>
      intro hvalid perTick hes
      obtain ⟨next, hnext, htotals⟩ := addAmount_totals hes (hvalid e (.head _))
      obtain ⟨last, hlast, hend⟩ := ih (es ++ [e]) (fun f hf => hvalid f (.tail e hf)) next htotals
      refine ⟨last, ?_, ?_⟩
      · rw [List.foldlM_cons, hnext]
        exact hlast
      · rwa [List.append_assoc] at hend
  have hstart : TotalsAre [] [] := by
    intro bucket
    simp [HasTotal]
  obtain ⟨perTick, hfolded, htotals⟩ := hfold [] entries h [] hstart
  refine ⟨⟨entries.length, perTick⟩, ?_, rfl, htotals⟩
  rw [usageOf, hfolded]

/-! ### Stored states -/

/-- A state that may be stored. -/
def WindowState.Valid (s : WindowState) : Prop :=
  (∀ e ∈ s.entries, e.Valid) ∧ ∀ seen ∈ s.lastSeen, 0 ≤ seen

/-- A field that may be read as a text. -/
def RawField.IsText : RawField → Prop
  | missing | text _ => True
  | number _ | other => False

/-- A field that may be read as an amount. -/
def RawField.IsAmount : RawField → Prop
  | missing => True
  | text s | number s => ∃ d, toScaled (jsTrim s) = some d ∧ 0 ≤ d.value
  | other => False

/-- An element of the stored entries that is none of the corrupt ones. -/
def RawEntry.WellFormed (raw : RawEntry) : Prop :=
  ∃ fields t, raw = some fields ∧ fields.t = some t ∧ 0 ≤ t ∧ fields.action.IsText ∧
    fields.tick.IsText ∧ fields.txid.IsText ∧ fields.amount.IsAmount

/-- A stored state that is not corrupt: nothing, or a state of this version whose entries are well
formed. -/
def RawState.WellFormed : RawState → Prop
  | null => True
  | other => False
  | window r => r.version = some 1 ∧ (∀ seen ∈ r.lastSeen, ∃ q, seen = some q ∧ 0 ≤ q) ∧
    ∀ raw ∈ r.entries, RawEntry.WellFormed raw

variable {err : String → WindowError}

theorem readText_isOk {name : String} {field : RawField} :
    (∃ v, readText err name field = .ok v) ↔ field.IsText := by
  cases field <;> simp [readText, RawField.IsText]

theorem readAmount_text (err : String → WindowError) (s : List Char) : readAmount err (.text s) =
      match toScaled (jsTrim s) with
      | none => .error (err "an entry has an invalid amount")
      | some d =>
        if d.value < 0 then .error (err "an entry has a negative amount") else .ok (some s) := rfl

theorem readAmount_isOk {field : RawField} :
    (∃ v, readAmount err field = .ok v) ↔ field.IsAmount := by
  cases field with
  | missing => exact iff_of_true ⟨none, rfl⟩ trivial
  | other => exact iff_of_false nofun id
  | text s | number s =>
    change (∃ v, readAmount err (.text s) = .ok v) ↔ _
    simp only [readAmount_text, RawField.IsAmount]
    cases toScaled (jsTrim s) with
    | none => simp
    | some d =>
      by_cases hneg : d.value < 0
      · simp [hneg]
      · simp [hneg, not_lt.mp hneg]

/-- What is read as an amount is an amount. -/
theorem amount_of_readAmount {field : RawField} {v : Option (List Char)}
    (h : readAmount err field = .ok v) :
    ∀ amount ∈ v, ∃ d, toScaled (jsTrim amount) = some d ∧ 0 ≤ d.value := by
  have hok : field.IsAmount := Iff.mp readAmount_isOk ⟨v, h⟩
  cases field with
  | missing =>
    cases h
    nofun
  | other => cases hok
  | text s | number s =>
    obtain ⟨d, hd, hpos⟩ := hok
    change readAmount err (.text s) = .ok v at h
    simp only [readAmount_text, hd, if_neg (not_lt.mpr hpos)] at h
    cases h
    intro amount hamount
    obtain rfl := Option.mem_some_iff.mp hamount
    exact ⟨d, hd, hpos⟩

theorem validateEntry_isOk {t : ℚ} {action tick amount txid : RawField} :
    (∃ e, validateEntry err t action tick amount txid = .ok e) ↔
      action.IsText ∧ tick.IsText ∧ txid.IsText ∧ amount.IsAmount := by
  simp only [validateEntry, bind_eq_ok, pure_eq_ok]
  constructor
  · rintro ⟨e, a, ha, k, hk, x, hx, m, hm, -⟩
    exact ⟨Iff.mp readText_isOk ⟨a, ha⟩, Iff.mp readText_isOk ⟨k, hk⟩, Iff.mp readText_isOk ⟨x, hx⟩,
      Iff.mp readAmount_isOk ⟨m, hm⟩⟩
  · rintro ⟨haction, htick, htxid, hamount⟩
    obtain ⟨a, ha⟩ := Iff.mpr readText_isOk haction
    obtain ⟨k, hk⟩ := Iff.mpr readText_isOk htick
    obtain ⟨x, hx⟩ := Iff.mpr readText_isOk htxid
    obtain ⟨m, hm⟩ := Iff.mpr readAmount_isOk hamount
    exact ⟨_, a, ha, k, hk, x, hx, m, hm, rfl⟩

theorem valid_of_validateEntry {t : ℚ} {action tick amount txid : RawField}
    (h : validateEntry err t action tick amount txid = .ok e) :
    e.t = t ∧ ∀ amount ∈ e.amount, ∃ d, toScaled (jsTrim amount) = some d ∧ 0 ≤ d.value := by
  simp only [validateEntry, bind_eq_ok, pure_eq_ok] at h
  obtain ⟨a, -, k, -, x, -, m, hm, rfl⟩ := h
  exact ⟨rfl, amount_of_readAmount hm⟩

theorem decodeEntry_some {fields : RawEntryFields} {t : ℚ} (ht : fields.t = some t) (hpos : 0 ≤ t) :
    decodeEntry (some fields) =
      validateEntry windowStateCorruptError t fields.action fields.tick fields.amount fields.txid := by
  simp [decodeEntry, ht, Option.filter_some, hpos]

theorem decodeEntry_refuses {raw : RawEntry}
    (h : raw.bind (fun fields => fields.t.filter (0 ≤ ·)) = none) :
    decodeEntry raw = .error (windowStateCorruptError "an entry has no valid timestamp") := by
  simp only [decodeEntry, h]

theorem decodeEntry_isOk {raw : RawEntry} :
    (∃ e, decodeEntry raw = .ok e) ↔ RawEntry.WellFormed raw := by
  cases raw with
  | none => simp [decodeEntry_refuses, RawEntry.WellFormed]
  | some fields =>
    cases ht : fields.t with
    | none => simp [decodeEntry_refuses, RawEntry.WellFormed, ht]
    | some t =>
      by_cases hpos : 0 ≤ t
      · rw [decodeEntry_some ht hpos, validateEntry_isOk]
        simp [RawEntry.WellFormed, ht, hpos]
      · simp [decodeEntry_refuses, RawEntry.WellFormed, ht, Option.filter_some, hpos]

theorem valid_of_decodeEntry {raw : RawEntry} (h : decodeEntry raw = .ok e) : e.Valid := by
  obtain ⟨fields, t, rfl, ht, hpos, -⟩ := Iff.mp decodeEntry_isOk ⟨e, h⟩
  rw [decodeEntry_some ht hpos] at h
  obtain ⟨htime, hamount⟩ := valid_of_validateEntry h
  exact ⟨htime.symm ▸ hpos, hamount⟩

/-- **A corrupt state is refused, and no other.** -/
theorem decodeState_isOk {raw : RawState} : (∃ s, decodeState raw = .ok s) ↔ raw.WellFormed := by
  cases raw with
  | null | other => simp [decodeState, RawState.WellFormed]
  | window r =>
    simp only [decodeState, RawState.WellFormed, bind_eq_ok, refuseIf_eq_ok, pure_eq_ok,
      exists_const]
    have hseen : ¬(r.lastSeen.any fun seen => seen.all (· < 0)) = true ↔
        ∀ seen ∈ r.lastSeen, ∃ q, seen = some q ∧ 0 ≤ q := by
      cases hlast : r.lastSeen with
      | none => simp
      | some seen => cases seen <;> simp
    constructor
    · rintro ⟨s, hversion, hlast, entries, hentries, -⟩
      refine ⟨not_not.mp hversion, hseen.mp hlast, ?_⟩
      exact fun raw hraw => Iff.mp decodeEntry_isOk (ok_of_mapM_eq_ok hentries hraw)
    · rintro ⟨hversion, hlast, hentries⟩
      obtain ⟨entries, hmap⟩ := exists_mapM_eq_ok fun raw hraw => Iff.mpr decodeEntry_isOk (hentries raw hraw)
      exact ⟨_, not_not.mpr hversion, hseen.mpr hlast, entries, hmap, rfl⟩

theorem valid_of_decodeState {raw : RawState} {s : WindowState} (h : decodeState raw = .ok s) :
    s.Valid := by
  have hok : raw.WellFormed := Iff.mp decodeState_isOk ⟨s, h⟩
  cases raw with
  | null =>
    cases h
    exact ⟨nofun, nofun⟩
  | other => cases hok
  | window r =>
    simp only [decodeState, bind_eq_ok, refuseIf_eq_ok, pure_eq_ok, exists_const] at h
    obtain ⟨-, -, entries, hentries, rfl⟩ := h
    refine ⟨?_, ?_⟩
    · intro e he
      obtain ⟨raw, -, hraw⟩ := (mem_of_mapM_eq_ok hentries e).mp he
      exact valid_of_decodeEntry hraw
    · intro seen hseen
      obtain ⟨q, hq, hqseen⟩ := Option.bind_eq_some_iff.mp hseen
      obtain ⟨q', hq', hpos⟩ := hok.2.1 q hq
      obtain rfl : q' = seen := Option.some.inj (hq'.symm.trans hqseen)
      exact hpos

/-- **What is written is read back.** -/
theorem decodeState_toRaw {s : WindowState} (h : s.Valid) : decodeState s.toRaw = .ok s := by
  have hentry : ∀ e : WindowEntry, e.Valid →
      decodeEntry (some ⟨some e.t, fieldOf e.action, fieldOf e.tick, fieldOf e.amount,
        fieldOf e.txid⟩) = .ok e := by
    intro e he
    have htext : ∀ name v, readText windowStateCorruptError name (fieldOf v) = .ok v := by
      intro name v
      cases v <;> rfl
    have hamount : readAmount windowStateCorruptError (fieldOf e.amount) = .ok e.amount := by
      cases hv : e.amount with
      | none => rfl
      | some amount =>
        obtain ⟨d, hd, hpos⟩ := he.2 amount hv
        simp [fieldOf, readAmount_text, hd, not_lt.mpr hpos]
    rw [decodeEntry_some rfl he.1]
    simp [validateEntry, htext, hamount, bind, Except.bind, pure, Except.pure]
  have hmap : (s.entries.map fun e => (some ⟨some e.t, fieldOf e.action, fieldOf e.tick,
      fieldOf e.amount, fieldOf e.txid⟩ : RawEntry)).mapM decodeEntry = .ok s.entries := by
    have hvalid := h.1
    generalize s.entries = entries at hvalid
    induction entries with
    | nil => rfl
    | cons e es ih =>
      rw [List.map_cons, List.mapM_cons, hentry e (hvalid e (.head _)),
        ih fun f hf => hvalid f (.tail e hf)]
      rfl
  simp only [WindowState.toRaw, decodeState, bind_eq_ok, refuseIf_eq_ok, pure_eq_ok, exists_const]
  refine ⟨by simp, ?_, s.entries, hmap, ?_⟩
  · cases hseen : s.lastSeen with
    | none => simp
    | some seen => simpa using h.2 seen hseen
  · obtain ⟨entries, lastSeen⟩ := s
    cases lastSeen <;> rfl

end XchainWallet
