import Mathlib.Logic.Relation
import XchainWallet.Transition.Run
import XchainWallet.Versioned.World

/-!
# Undisturbed runs are serial

Where the tasks of a system are sound for a relation `E` of edits, and no reload leaves a change with
an old record under a new version, every write that goes into the store is an edit of the record that
is stored. So the record only ever moves along `E`, and what a call has resolved with is a record
that the stored one has come from.

The invariant says what a handle and a context know: their copies are records that were stored, and a
copy whose version is the stored one is the stored record.
-/

namespace Versioned

open Relation Function Transition Handle World

variable {ρ κ ε Q A : Type}
variable (S : System ρ κ ε Q A) (E : ρ → ρ → Prop) (Post : κ → ρ → Prop) (r₀ : ρ)

/-! ### The invariant -/

/-- The record was stored once, in a store that began with `r₀`. -/
def Past (stored : Option ρ) (r : ρ) : Prop :=
  ReflTransGen E r₀ r ∧ ∃ s, stored = some s ∧ ReflTransGen E r s

/-- A copy under the version that was seen last. -/
structure Copied (w : World ρ κ ε Q A) (seen : ℕ) (copy : Option ρ) : Prop where
  past : ∀ r, copy = some r → Past E r₀ w.stored r
  current : seen = w.version → copy = w.stored

/-- What holds of a handle. -/
structure HandleOk (w : World ρ κ ε Q A) (h : ℕ) : Prop where
  seen_le : (w.handles h).seen ≤ w.version
  idle : (w.handles h).writing = none → (w.handles h).state = .opened →
    Copied E r₀ w (w.handles h).seen (w.handles h).doc
  busy : ∀ wr, (w.handles h).writing = some wr →
    wr.expected = (w.handles h).seen ∧ Copied E r₀ w (w.handles h).seen wr.before ∧
      ((w.handles h).state = .opened → (w.handles h).doc = wr.document) ∧
      (wr.ofChange = false → wr.document = wr.before)
  change : ∀ wr, (w.handles h).writing = some wr → wr.ofChange = true →
    ∃ call base next k, w.running (S.home h) = some ⟨call, h, .saving base next k⟩ ∧
      wr.document = some next

/-- What holds of a change that runs. -/
def PhaseOk (w : World ρ κ ε Q A) : Running ρ κ ε Q A → Prop
  | ⟨_, _, .reading⟩ => True
  | ⟨call, h, .at base task⟩ =>
    (w.handles h).state ≠ .unopened ∧ Copied E r₀ w (w.handles h).seen base ∧
      task.Sound E (Post call) base
  | ⟨call, h, .saving base next k⟩ =>
    (w.handles h).state ≠ .unopened ∧ Copied E r₀ w (w.handles h).seen base ∧
      (Task.put next k).Sound E (Post call) base ∧
      ∃ wr, (w.handles h).writing = some wr ∧ wr.ofChange = true

/-- What holds of a context. -/
structure ContextOk (w : World ρ κ ε Q A) (c : ℕ) : Prop where
  running : ∀ r, w.running c = some r → S.home r.handle = c ∧ PhaseOk E Post r₀ w r
  waiting : ∀ p ∈ w.waiting c, S.home p.2 = c

structure Inv (w : World ρ κ ε Q A) : Prop where
  stored : ∃ s, w.stored = some s ∧ ReflTransGen E r₀ s
  handle : ∀ h, HandleOk S E r₀ w h
  context : ∀ c, ContextOk S E Post r₀ w c
  resolved : ∀ p ∈ w.resolved, Past E r₀ w.stored p.2 ∧ Post p.1 p.2

variable {S E Post r₀} {w w' : World ρ κ ε Q A}

/-! ### What an edit of the store keeps -/

theorem Past.mono {stored stored' : Option ρ} {r : ρ}
    (h : Past E r₀ stored r)
    (hstored : ∀ s, stored = some s → ∃ s', stored' = some s' ∧ ReflTransGen E s s') :
    Past E r₀ stored' r := by
  obtain ⟨hr, s, hs, hpath⟩ := h
  obtain ⟨s', hs', hpath'⟩ := hstored s hs
  exact ⟨hr, s', hs', hpath.trans hpath'⟩

/-- Nothing was stored, or a write has made a new version. -/
def Evolves (E : ρ → ρ → Prop) (w w' : World ρ κ ε Q A) : Prop :=
  (w'.stored = w.stored ∧ w'.version = w.version) ∨
    w'.version = w.version + 1 ∧ ∃ s s', w.stored = some s ∧ w'.stored = some s' ∧ ReflTransGen E s s'

theorem Evolves.stored (h : Evolves E w w') :
    ∀ s, w.stored = some s → ∃ s', w'.stored = some s' ∧ ReflTransGen E s s' := by
  intro s hs
  rcases h with ⟨hsame, -⟩ | ⟨-, t, t', ht, ht', hpath⟩
  · exact ⟨s, hsame.trans hs, .refl⟩
  · obtain rfl : t = s := Option.some.inj (ht.symm.trans hs)
    exact ⟨t', ht', hpath⟩

theorem Copied.mono {seen : ℕ} {copy : Option ρ} (h : Copied E r₀ w seen copy)
    (hseen : seen ≤ w.version) (hev : Evolves E w w') : Copied E r₀ w' seen copy := by
  refine ⟨fun r hr => (h.past r hr).mono hev.stored, ?_⟩
  intro hcurrent
  rcases hev with ⟨hstored, hversion⟩ | ⟨hversion, -⟩
  · rw [hstored]
    exact h.current (hcurrent.trans hversion)
  · omega

variable {h : ℕ}

/-- A handle that the step leaves alone. -/
theorem HandleOk.mono (hok : HandleOk S E r₀ w h) (hhandle : w'.handles h = w.handles h)
    (hev : Evolves E w w')
    (hchange : ∀ wr, (w.handles h).writing = some wr → wr.ofChange = true →
      w'.running (S.home h) = w.running (S.home h)) : HandleOk S E r₀ w' h := by
  have hversion : w.version ≤ w'.version := by
    rcases hev with ⟨-, h⟩ | ⟨h, -⟩ <;> omega
  constructor
  · rw [hhandle]
    exact Nat.le_trans hok.seen_le hversion
  · rw [hhandle]
    exact fun hnone hopened => (hok.idle hnone hopened).mono hok.seen_le hev
  · rw [hhandle]
    intro wr hwr
    obtain ⟨hexpected, hbefore, hdoc, hother⟩ := hok.busy wr hwr
    exact ⟨hexpected, hbefore.mono hok.seen_le hev, hdoc, hother⟩
  · rw [hhandle]
    intro wr hwr hof
    obtain ⟨call, base, next, k, hrun, hdocument⟩ := hok.change wr hwr hof
    exact ⟨call, base, next, k, (hchange wr hwr hof).trans hrun, hdocument⟩

/-- A change whose handle the step leaves alone. -/
theorem PhaseOk.mono {r : Running ρ κ ε Q A} (hok : PhaseOk E Post r₀ w r)
    (hseen : (w.handles r.handle).seen ≤ w.version)
    (hhandle : w'.handles r.handle = w.handles r.handle) (hev : Evolves E w w') :
    PhaseOk E Post r₀ w' r := by
  obtain ⟨call, h, phase⟩ := r
  change w'.handles h = w.handles h at hhandle
  cases phase with
  | reading => trivial
  | «at» base task =>
    obtain ⟨hstate, hcopied, hsound⟩ := hok
    refine ⟨?_, ?_, hsound⟩
    · rwa [hhandle]
    · rw [hhandle]
      exact hcopied.mono hseen hev
  | saving base next k =>
    obtain ⟨hstate, hcopied, hsound, hwriting⟩ := hok
    refine ⟨?_, ?_, hsound, ?_⟩
    · rwa [hhandle]
    · rw [hhandle]
      exact hcopied.mono hseen hev
    · rwa [hhandle]

/-- **Local steps.** A step that changes one handle and the change that runs over it keeps the
invariant where that handle and that change keep their part. -/
theorem Inv.of_local (hinv : Inv S E Post r₀ w) (h : ℕ) (hev : Evolves E w w')
    (hhandles : ∀ h', h' ≠ h → w'.handles h' = w.handles h')
    (hrunning : ∀ c, c ≠ S.home h → w'.running c = w.running c)
    (hother : ∀ r, r.handle ≠ h → w.running (S.home h) = some r ∨ w'.running (S.home h) = some r →
        w'.running (S.home h) = w.running (S.home h))
    (hwaiting : ∀ c, ∀ p ∈ w'.waiting c, S.home p.2 = c)
    (hresolved : ∀ p ∈ w'.resolved, p ∈ w.resolved ∨ Past E r₀ w'.stored p.2 ∧ Post p.1 p.2)
    (hhandle : HandleOk S E r₀ w' h)
    (hphase : ∀ r, w'.running (S.home h) = some r → r.handle = h → PhaseOk E Post r₀ w' r) :
    Inv S E Post r₀ w' := by
  have hphase_mono : ∀ c r, w.running c = some r → r.handle ≠ h → PhaseOk E Post r₀ w' r := by
    intro c r hr hne
    have hok := ((hinv.context c).running r hr).2
    exact hok.mono (hinv.handle r.handle).seen_le (hhandles r.handle hne) hev
  refine ⟨?_, ?_, ?_, ?_⟩
  · obtain ⟨s, hs, hpath⟩ := hinv.stored
    obtain ⟨s', hs', hpath'⟩ := hev.stored s hs
    exact ⟨s', hs', hpath.trans hpath'⟩
  · intro h'
    by_cases hh : h' = h
    · exact hh ▸ hhandle
    · refine (hinv.handle h').mono (hhandles h' hh) hev ?_
      intro wr hwr hof
      obtain ⟨call, base, next, k, hrun, -⟩ := (hinv.handle h').change wr hwr hof
      by_cases hc : S.home h' = S.home h
      · rw [hc] at hrun ⊢
        exact hother _ hh (.inl hrun)
      · exact hrunning _ hc
  · intro c
    refine ⟨?_, hwaiting c⟩
    intro r hr
    by_cases hc : c = S.home h
    · subst hc
      by_cases hh : r.handle = h
      · exact ⟨by rw [hh], hphase r hr hh⟩
      · have hold : w.running (S.home h) = some r := (hother r hh (.inr hr)).symm.trans hr
        exact ⟨((hinv.context _).running r hold).1, hphase_mono _ r hold hh⟩
    · rw [hrunning c hc] at hr
      have hhome := ((hinv.context c).running r hr).1
      have hne : r.handle ≠ h := fun hh => hc (by rw [← hhome, hh])
      exact ⟨hhome, hphase_mono c r hr hne⟩
  · intro p hp
    rcases hresolved p hp with hp | hp
    · exact ⟨(hinv.resolved p hp).1.mono hev.stored, (hinv.resolved p hp).2⟩
    · exact hp

/-! ### Steps without an answer of the backend -/

/-- The step stores nothing. -/
theorem evolves_of_eq (hstored : w'.stored = w.stored) (hversion : w'.version = w.version) :
    Evolves E w w' := .inl ⟨hstored, hversion⟩

/-- What an open handle reads, where no change is being saved over it. -/
theorem HandleOk.doc (hok : HandleOk S E r₀ w h)
    (hsaving : ∀ wr, (w.handles h).writing = some wr → wr.ofChange = false)
    (hopened : (w.handles h).state = .opened) :
    Copied E r₀ w (w.handles h).seen (w.handles h).doc := by
  cases hwriting : (w.handles h).writing with
  | none => exact hok.idle hwriting hopened
  | some wr =>
    obtain ⟨-, hbefore, hdoc, hother⟩ := hok.busy wr hwriting
    rw [hdoc hopened, hother (hsaving wr hwriting)]
    exact hbefore

/-- A change that is not being saved has no write under way. -/
theorem HandleOk.not_ofChange {r : Option (Running ρ κ ε Q A)} (hok : HandleOk S E r₀ w h)
    (hrun : w.running (S.home h) = r)
    (hr : ∀ call base next k, r ≠ some ⟨call, h, .saving base next k⟩) :
    ∀ wr, (w.handles h).writing = some wr → wr.ofChange = false := by
  intro wr hwr
  by_contra hof
  obtain ⟨call, base, next, k, hsaving, -⟩ := hok.change wr hwr (by simpa using hof)
  exact hr call base next k (hrun.symm.trans hsaving)

/-- A change that is not being saved goes on, or ends. -/
theorem Inv.setRunning (hinv : Inv S E Post r₀ w) {c h : ℕ} {call : κ} {phase : Phase ρ ε Q A}
    (hrun : w.running c = some ⟨call, h, phase⟩)
    (hphase : ∀ base next k, phase ≠ .saving base next k) {r : Option (Running ρ κ ε Q A)}
    (hr : ∀ x, r = some x → x.handle = h ∧ PhaseOk E Post r₀ w x) :
    Inv S E Post r₀ (w.setRunning c r) := by
  obtain rfl : S.home h = c := ((hinv.context c).running _ hrun).1
  have hev : Evolves E w (w.setRunning (S.home h) r) := evolves_of_eq rfl rfl
  refine hinv.of_local h hev (fun _ _ => rfl) ?_ ?_ (fun c => (hinv.context c).waiting)
    (fun p hp => .inl hp) ?_ ?_
  · intro c hc
    exact w.setRunning_of_ne _ r hc
  · rintro x hx (hold | hnew)
    · rw [hrun] at hold
      obtain ⟨⟩ := hold
      exact absurd rfl hx
    · rw [setRunning_self] at hnew
      exact absurd (hr x hnew).1 hx
  · refine (hinv.handle h).mono rfl hev ?_
    intro wr hwr hof
    obtain ⟨call', base, next, k, hsaving, -⟩ := (hinv.handle h).change wr hwr hof
    rw [hrun] at hsaving
    cases hsaving
    exact absurd rfl (hphase base next k)
  · intro x hx hh
    rw [setRunning_self] at hx
    obtain ⟨-, hok⟩ := hr x hx
    exact hok.mono (hinv.handle x.handle).seen_le rfl hev

/-- A handle changes whose document and versions stand in the invariant, and no change runs. -/
theorem Inv.setHandle (hinv : Inv S E Post r₀ w) {hd : Handle ρ}
    (hhandle : HandleOk S E r₀ (w.setHandle h hd) h)
    (hphase : ∀ r, w.running (S.home h) = some r → r.handle = h →
      PhaseOk E Post r₀ (w.setHandle h hd) r) : Inv S E Post r₀ (w.setHandle h hd) := by
  refine hinv.of_local h (evolves_of_eq rfl rfl) ?_ (fun _ _ => rfl) (fun _ _ _ => rfl)
    (fun c => (hinv.context c).waiting) (fun p hp => .inl hp) hhandle hphase
  intro h' hh
  exact w.setHandle_of_ne _ hd hh

theorem Inv.openHandle (hinv : Inv S E Post r₀ w) (hunopened : (w.handles h).state = .unopened) :
    Inv S E Post r₀ (w.setHandle h ⟨.opened, w.stored, w.version, none⟩) := by
  obtain ⟨s, hs, hpath⟩ := hinv.stored
  refine hinv.setHandle ?_ ?_
  · constructor
    · simp
    · intro _ _
      refine ⟨?_, fun _ => by simp⟩
      intro r hr
      obtain rfl : s = r := by
        rw [setHandle_self, hs] at hr
        exact Option.some.inj hr
      exact ⟨hpath, s, hs, .refl⟩
    · intro wr hwr
      simp at hwr
    · intro wr hwr
      simp at hwr
  · rintro ⟨call, h', phase⟩ hrun rfl
    have hok := ((hinv.context _).running _ hrun).2
    cases phase with
    | reading => trivial
    | «at» base task => exact absurd hunopened hok.1
    | saving base next k => exact absurd hunopened hok.1

theorem Inv.close (hinv : Inv S E Post r₀ w) (h : ℕ) :
    Inv S E Post r₀ (w.setHandle h (w.handles h).close) := by
  have hok := hinv.handle h
  refine hinv.setHandle ?_ ?_
  · constructor
    · simpa [Handle.close] using hok.seen_le
    · intro _ hopened
      simp [Handle.close] at hopened
    · intro wr hwr
      obtain ⟨hexpected, hbefore, -, hother⟩ := hok.busy wr (by simpa [Handle.close] using hwr)
      simp only [setHandle_self, Handle.close]
      exact ⟨hexpected, ⟨hbefore.past, hbefore.current⟩, nofun, hother⟩
    · intro wr hwr
      exact hok.change wr (by simpa [Handle.close] using hwr)
  · rintro ⟨call, h', phase⟩ hrun rfl
    have hphase := ((hinv.context _).running _ hrun).2
    cases phase with
    | reading => trivial
    | «at» base task =>
      obtain ⟨-, hcopied, hsound⟩ := hphase
      refine ⟨?_, ?_, hsound⟩
      · simp [Handle.close]
      · simpa [Handle.close] using ⟨hcopied.past, hcopied.current⟩
    | saving base next k =>
      obtain ⟨-, hcopied, hsound, hwriting⟩ := hphase
      refine ⟨?_, ?_, hsound, ?_⟩
      · simp [Handle.close]
      · simpa [Handle.close] using ⟨hcopied.past, hcopied.current⟩
      · simpa [Handle.close] using hwriting

theorem Inv.acquire (hinv : Inv S E Post r₀ w) {c h : ℕ} {call : κ} {rest : List (κ × ℕ)}
    {holder : Option ℕ} (hwaiting : w.waiting c = (call, h) :: rest) (hidle : w.running c = none) :
    Inv S E Post r₀ { w with
      waiting := update w.waiting c rest,
      running := update w.running c (some ⟨call, h, .reading⟩),
      holder := holder } := by
  have hqueue := (hinv.context c).waiting
  rw [hwaiting] at hqueue
  obtain rfl : S.home h = c := hqueue _ (.head _)
  refine hinv.of_local h (evolves_of_eq rfl rfl) (fun _ _ => rfl) ?_ ?_ ?_ (fun p hp => .inl hp)
    ?_ ?_
  · intro c hc
    exact update_of_ne hc _ _
  · rintro x hx (hold | hnew)
    · rw [hidle] at hold
      cases hold
    · simp only [update_self] at hnew
      cases hnew
      exact absurd rfl hx
  · intro c p hp
    by_cases hc : c = S.home h
    · subst hc
      simp only [update_self] at hp
      exact hqueue p (.tail _ hp)
    · simp only [update_of_ne hc] at hp
      exact (hinv.context c).waiting p hp
  · refine (hinv.handle h).mono rfl (evolves_of_eq rfl rfl) ?_
    intro wr hwr hof
    obtain ⟨call', base, next, k, hsaving, -⟩ := (hinv.handle h).change wr hwr hof
    rw [hidle] at hsaving
    cases hsaving
  · intro x hx _
    simp only [update_self] at hx
    cases hx
    trivial

theorem Inv.request (hinv : Inv S E Post r₀ w) (h : ℕ) (call : κ) : Inv S E Post r₀ { w with
      waiting := update w.waiting (S.home h) (w.waiting (S.home h) ++ [(call, h)]) } := by
  refine hinv.of_local h (evolves_of_eq rfl rfl) (fun _ _ => rfl) (fun _ _ => rfl)
    (fun _ _ _ => rfl) ?_ (fun p hp => .inl hp) ?_ ?_
  · intro c p hp
    by_cases hc : c = S.home h
    · subst hc
      simp only [update_self, List.mem_append] at hp
      rcases hp with hp | hp
      · exact (hinv.context _).waiting p hp
      · rw [List.mem_singleton.mp hp]
    · simp only [update_of_ne hc] at hp
      exact (hinv.context c).waiting p hp
  · exact (hinv.handle h).mono rfl (evolves_of_eq rfl rfl) fun _ _ _ => rfl
  · intro r hr _
    exact ((hinv.context _).running r hr).2.mono (hinv.handle _).seen_le rfl (evolves_of_eq rfl rfl)

theorem Inv.beginPut (hinv : Inv S E Post r₀ w) {c h : ℕ} {call : κ} {base : Option ρ} {next : ρ}
    {k : Task ρ ε Q A} (hrun : w.running c = some ⟨call, h, .at base (.put next k)⟩)
    (hopened : (w.handles h).state = .opened) (hidle : (w.handles h).writing = none) :
    Inv S E Post r₀ ((w.setRunning c (some ⟨call, h, .saving base next k⟩)).setHandle h
      ((w.handles h).begin (some next) true)) := by
  obtain ⟨rfl, -, hbase, hsound⟩ := (hinv.context c).running _ hrun
  have hok := hinv.handle h
  refine hinv.of_local h (evolves_of_eq rfl rfl) ?_ ?_ ?_ (fun c => (hinv.context c).waiting)
    (fun p hp => .inl hp) ?_ ?_
  · intro h' hh
    exact setHandle_of_ne _ _ _ hh
  · intro c hc
    exact setRunning_of_ne _ _ _ hc
  · rintro x hx (hold | hnew)
    · rw [hrun] at hold
      cases hold
      exact absurd rfl hx
    · rw [setHandle_running, setRunning_self] at hnew
      cases hnew
      exact absurd rfl hx
  · constructor
    · simpa [begin] using hok.seen_le
    · intro hnone _
      simp [begin] at hnone
    · intro wr hwr
      obtain rfl : _ = wr := by simpa [begin] using hwr
      have hdoc := hok.idle hidle hopened
      refine ⟨?_, ⟨?_, ?_⟩, ?_, nofun⟩
      · simp [begin]
      · exact hdoc.past
      · simpa [begin] using hdoc.current
      · simp [begin]
    · intro wr hwr _
      obtain rfl : _ = wr := by simpa [begin] using hwr
      exact ⟨call, base, next, k, by simp, rfl⟩
  · intro x hx _
    rw [setHandle_running, setRunning_self] at hx
    cases hx
    refine ⟨?_, ⟨hbase.past, ?_⟩, hsound,
      ⟨some next, (w.handles h).doc, (w.handles h).seen, true⟩, ?_, rfl⟩
    · simp [begin, hopened]
    · simpa [begin] using hbase.current
    · simp [begin]

theorem Inv.beginOther (hinv : Inv S E Post r₀ w) (hopened : (w.handles h).state = .opened)
    (hidle : (w.handles h).writing = none) :
    Inv S E Post r₀ (w.setHandle h ((w.handles h).begin (w.handles h).doc false)) := by
  have hok := hinv.handle h
  have hdoc := hok.idle hidle hopened
  refine hinv.setHandle ?_ ?_
  · constructor
    · simpa [begin] using hok.seen_le
    · intro hnone _
      simp [begin] at hnone
    · intro wr hwr
      obtain rfl : _ = wr := by simpa [begin] using hwr
      refine ⟨?_, ⟨hdoc.past, ?_⟩, ?_, ?_⟩
      · simp [begin]
      · simpa [begin] using hdoc.current
      · simp [begin]
      · simp
    · intro wr hwr hof
      obtain rfl : _ = wr := by simpa [begin] using hwr
      cases hof
  · rintro ⟨call, h', phase⟩ hrun rfl
    have hphase := ((hinv.context _).running _ hrun).2
    cases phase with
    | reading => trivial
    | «at» base task =>
      obtain ⟨-, hcopied, hsound⟩ := hphase
      refine ⟨by simp [begin, hopened], ⟨hcopied.past, ?_⟩, hsound⟩
      simpa [begin] using hcopied.current
    | saving base next k =>
      obtain ⟨-, -, -, wr, hwr, -⟩ := hphase
      change (w.handles h').writing = none at hidle
      change (w.handles h').writing = some wr at hwr
      rw [hidle] at hwr
      cases hwr

theorem Inv.settle (hinv : Inv S E Post r₀ w) {c h : ℕ} {call : κ} {base : Option ρ} {result : ρ}
    (hrun : w.running c = some ⟨call, h, .at base (.done result)⟩) :
    Inv S E Post r₀ { w.setRunning c none with resolved := (call, result) :: w.resolved } := by
  obtain ⟨-, -, hbase, hresult, hpost⟩ := (hinv.context c).running _ hrun
  have hended := hinv.setRunning hrun nofun (r := none) nofun
  refine hended.of_local h (evolves_of_eq rfl rfl) (fun _ _ => rfl) (fun _ _ => rfl)
    (fun _ _ _ => rfl) (fun c => (hended.context c).waiting) ?_ ?_ ?_
  · intro p hp
    rcases List.mem_cons.mp hp with rfl | hp
    · exact .inr ⟨hbase.past result hresult, hpost⟩
    · exact .inl hp
  · exact (hended.handle h).mono rfl (evolves_of_eq rfl rfl) fun _ _ _ => rfl
  · intro x hx _
    have hok := ((hended.context _).running x hx).2
    exact hok.mono (hended.handle _).seen_le rfl (evolves_of_eq rfl rfl)

/-! ### The end of a write -/

/-- The stored record is a copy under its version. -/
theorem Inv.copied_stored (hinv : Inv S E Post r₀ w) : Copied E r₀ w w.version w.stored := by
  obtain ⟨s, hs, hpath⟩ := hinv.stored
  refine ⟨?_, fun _ => rfl⟩
  intro r hr
  obtain rfl : s = r := Option.some.inj (hs.symm.trans hr)
  exact ⟨hpath, s, hs, .refl⟩

/-- A handle without a write. -/
theorem HandleOk.of_idle {hd : Handle ρ} (hhandle : w.handles h = hd) (hidle : hd.writing = none)
    (hseen : hd.seen ≤ w.version) (hdoc : hd.state = .opened → Copied E r₀ w hd.seen hd.doc) :
    HandleOk S E r₀ w h := by
  subst hhandle
  refine ⟨hseen, fun _ => hdoc, ?_, ?_⟩
  · intro wr hwr
    rw [hidle] at hwr
    cases hwr
  · intro wr hwr
    rw [hidle] at hwr
    cases hwr

variable {wr : Writing ρ}

/-- A write that the compare-and-swap accepts is an edit of what is stored. -/
theorem Inv.document_of_current (hinv : Inv S E Post r₀ w)
    (hwriting : (w.handles h).writing = some wr) (hcurrent : wr.expected = w.version) :
    ∃ s d, w.stored = some s ∧ wr.document = some d ∧ ReflTransGen E s d := by
  obtain ⟨s, hs, -⟩ := hinv.stored
  obtain ⟨hexpected, hbefore, -, hother⟩ := (hinv.handle h).busy wr hwriting
  have hseen : (w.handles h).seen = w.version := hexpected.symm.trans hcurrent
  cases hof : wr.ofChange with
  | false => exact ⟨s, s, hs, by rw [hother hof, hbefore.current hseen, hs], .refl⟩
  | true =>
    obtain ⟨call, base, next, k, hrun, hdocument⟩ := (hinv.handle h).change wr hwriting hof
    obtain ⟨-, -, hbase, ⟨⟨r, hr, hedit⟩, -⟩, -⟩ := (hinv.context _).running _ hrun
    have hstored : w.stored = some r := (hbase.current hseen).symm.trans hr
    exact ⟨r, next, hstored, hdocument, .single hedit⟩

theorem Inv.evolves_store (hinv : Inv S E Post r₀ w) {hd : Handle ρ}
    (hwriting : (w.handles h).writing = some wr) (hcurrent : wr.expected = w.version) :
    Evolves E w ((w.store wr).setHandle h hd) := by
  obtain ⟨s, d, hs, hd, hpath⟩ := hinv.document_of_current hwriting hcurrent
  exact .inr ⟨rfl, s, d, hs, hd, hpath⟩

theorem Inv.evolves_finish (hinv : Inv S E Post r₀ w) (hwriting : (w.handles h).writing = some wr)
    (answer : Answer) :
    Evolves E w (w.finish h wr answer).1 := by
  cases answer with
  | failed => exact evolves_of_eq rfl rfl
  | settled conflict =>
    by_cases hcurrent : wr.expected = w.version
    · rw [finish, if_pos hcurrent]
      exact hinv.evolves_store hwriting hcurrent
    · rw [finish, if_neg hcurrent]
      exact evolves_of_eq rfl rfl
  | lost =>
    by_cases hcurrent : wr.expected = w.version
    · simp only [finish, if_pos hcurrent]
      exact hinv.evolves_store hwriting hcurrent
    · simp only [finish, if_neg hcurrent]
      exact evolves_of_eq rfl rfl

/-- A write that failed leaves the handle with the document before it. -/
theorem HandleOk.rollBack (hok : HandleOk S E r₀ w h) (hwriting : (w.handles h).writing = some wr)
    (hev : Evolves E w w') (hhandle : w'.handles h = (w.handles h).rollBack wr) :
    HandleOk S E r₀ w' h := by
  obtain ⟨-, hbefore, -, -⟩ := hok.busy wr hwriting
  have hcopied := hbefore.mono hok.seen_le hev
  have hversion : w.version ≤ w'.version := by
    rcases hev with ⟨-, h⟩ | ⟨h, -⟩ <;> omega
  refine .of_idle hhandle rfl (Nat.le_trans hok.seen_le hversion) ?_
  intro hopened
  simp only [Handle.rollBack] at hopened ⊢
  rwa [if_pos hopened]

/-- A handle whose write met a conflict. -/
theorem HandleOk.conflict (hok : HandleOk S E r₀ w h) (hwriting : (w.handles h).writing = some wr)
    (hstored : Copied E r₀ w w.version w.stored) (conflict : Reload) :
    HandleOk S E r₀ (w.setHandle h ((w.handles h).conflict wr w.stored w.version conflict)) h := by
  have hev : ∀ hd, Evolves E w (w.setHandle h hd) := fun _ => evolves_of_eq rfl rfl
  have hreload : HandleOk S E r₀
      (w.setHandle h ((w.handles h).reload w.stored w.version)) h := by
    by_cases hopened : (w.handles h).state = .opened
    · refine .of_idle (w.setHandle_self h _) ?_ ?_ fun _ => ?_
      · simp [reload, hopened]
      · simp [reload, hopened]
      · simpa [reload, hopened] using hstored.mono (Nat.le_refl _) (hev _)
    · refine .of_idle (w.setHandle_self h _) ?_ ?_ fun hstill => ?_
      · simp [reload, hopened]
      · simpa [reload, hopened] using hok.seen_le
      · simp [reload, hopened] at hstill
  cases conflict with
  | rejects => exact hreload
  | fails => exact hok.rollBack hwriting (hev _) (w.setHandle_self h _)
  | closes =>
    refine .of_idle (w.setHandle_self h _) ?_ ?_ fun hopened => ?_
    · simp [Handle.conflict]
    · simpa [Handle.conflict, Handle.close] using hok.seen_le
    · simp [Handle.conflict, Handle.close] at hopened
  | again =>
    by_cases hagain : (w.handles h).state = .opened ∧ wr.ofChange = false
    · simp only [Handle.conflict, if_pos hagain]
      constructor
      · simp [begin, reload, hagain.1]
      · intro hnone
        simp [begin] at hnone
      · intro wr' hwr'
        obtain rfl : _ = wr' := by simpa [begin] using hwr'
        refine ⟨?_, ?_, ?_, ?_⟩
        · simp [begin]
        · simpa [begin, reload, hagain.1] using hstored.mono (Nat.le_refl _) (hev _)
        · simp [begin]
        · simp [reload, hagain.1]
      · intro wr' hwr' hof
        obtain rfl : _ = wr' := by simpa [begin] using hwr'
        cases hof
    · simp only [Handle.conflict, if_neg hagain]
      exact hreload

theorem Inv.handle_finish (hinv : Inv S E Post r₀ w) (hwriting : (w.handles h).writing = some wr)
    (answer : Answer) :
    HandleOk S E r₀ (w.finish h wr answer).1 h := by
  have hok := hinv.handle h
  have hev := hinv.evolves_finish hwriting answer
  cases answer with
  | failed => exact hok.rollBack hwriting hev (w.setHandle_self h _)
  | lost => exact hok.rollBack hwriting hev (setHandle_self _ h _)
  | settled conflict =>
    by_cases hcurrent : wr.expected = w.version
    · obtain ⟨s, d, hs, hd, hpath⟩ := hinv.document_of_current hwriting hcurrent
      obtain ⟨-, -, hdoc, -⟩ := hok.busy wr hwriting
      obtain ⟨hr₀, -⟩ := hinv.copied_stored.past s hs
      simp only [finish, if_pos hcurrent]
      refine .of_idle (setHandle_self _ h _) rfl (Nat.le_refl _) ?_
      intro hopened
      simp only [accept] at hopened ⊢
      rw [hdoc hopened]
      refine ⟨?_, fun _ => rfl⟩
      intro r hr
      obtain rfl : d = r := Option.some.inj (hd.symm.trans hr)
      exact ⟨hr₀.trans hpath, d, hd, .refl⟩
    · simp only [finish, if_neg hcurrent]
      exact hok.conflict hwriting hinv.copied_stored conflict

/-- No step takes a handle back to where it was not opened. -/
theorem state_finish (wr : Writing ρ) (answer : Answer) (hstate : (w.handles h).state ≠ .unopened) :
    ((w.finish h wr answer).1.handles h).state ≠ .unopened := by
  have hreload : ((w.handles h).reload w.stored w.version).state ≠ .unopened := by
    rw [reload]
    split <;> exact hstate
  cases answer with
  | failed | lost => simpa [finish, rollBack] using hstate
  | settled conflict =>
    by_cases hcurrent : wr.expected = w.version
    · simpa [finish, hcurrent, accept] using hstate
    · simp only [finish, if_neg hcurrent, setHandle_self]
      cases conflict with
      | rejects => exact hreload
      | fails => exact hstate
      | closes => simp [conflict, close]
      | again =>
        rw [conflict]
        split
        · exact hreload
        · exact hreload

/-- The copy of a change that runs over the handle, when a write of other records ends. -/
theorem Inv.copied_finish (hinv : Inv S E Post r₀ w) {base : Option ρ}
    (hwriting : (w.handles h).writing = some wr) (hof : wr.ofChange = false) (answer : Answer)
    (hbase : Copied E r₀ w (w.handles h).seen base)
    (hreloads : (w.handles h).reloads w.version answer → base = w.stored) :
    Copied E r₀ (w.finish h wr answer).1 ((w.finish h wr answer).1.handles h).seen base := by
  have hok := hinv.handle h
  have hev := hinv.evolves_finish hwriting answer
  obtain ⟨hexpected, hbefore, -, hother⟩ := hok.busy wr hwriting
  have hmono := hbase.mono hok.seen_le hev
  cases answer with
  | failed | lost => simpa [finish, rollBack] using hmono
  | settled conflict =>
    by_cases hcurrent : wr.expected = w.version
    · have hseen : (w.handles h).seen = w.version := hexpected.symm.trans hcurrent
      refine ⟨hmono.past, fun _ => ?_⟩
      simp only [finish, if_pos hcurrent, setHandle_stored, store]
      rw [hother hof, hbefore.current hseen, hbase.current hseen]
    · have hkeep : ∀ hd : Handle ρ, hd.seen = (w.handles h).seen →
          Copied E r₀ (w.setHandle h hd) ((w.setHandle h hd).handles h).seen base := by
        intro hd hseen
        rw [setHandle_self, hseen]
        exact hbase.mono hok.seen_le (evolves_of_eq rfl rfl)
      have hreload : ∀ hd : Handle ρ, (conflict = .rejects ∨ conflict = .again) →
          hd.seen = ((w.handles h).reload w.stored w.version).seen →
          Copied E r₀ (w.setHandle h hd) ((w.setHandle h hd).handles h).seen base := by
        intro hd hconflict hseen
        by_cases hopened : (w.handles h).state = .opened
        · have hstored : base = w.stored := by
            apply hreloads
            simp [reloads, hopened, hwriting, hcurrent, hof, hconflict]
          rw [setHandle_self, hseen, reload, if_pos hopened, hstored]
          exact hinv.copied_stored.mono (Nat.le_refl _) (evolves_of_eq rfl rfl)
        · apply hkeep
          rw [hseen, reload, if_neg hopened]
      simp only [finish, if_neg hcurrent]
      cases conflict with
      | rejects => exact hreload _ (.inl rfl) rfl
      | fails => exact hkeep _ rfl
      | closes => exact hkeep _ rfl
      | again =>
        refine hreload _ (.inr rfl) ?_
        rw [conflict]
        split <;> rfl

/-- The end of a write concerns the store and its handle. -/
theorem finish_frame (h : ℕ) (wr : Writing ρ) (answer : Answer) :
    (w.finish h wr answer).1.running = w.running ∧ (w.finish h wr answer).1.waiting = w.waiting ∧
      (w.finish h wr answer).1.resolved = w.resolved ∧
      ∀ h', h' ≠ h → (w.finish h wr answer).1.handles h' = w.handles h' := by
  have hset : ∀ hd : Handle ρ, ∀ h', h' ≠ h → (w.setHandle h hd).handles h' = w.handles h' :=
    fun hd h' hh => w.setHandle_of_ne h hd hh
  cases answer with
  | failed => exact ⟨rfl, rfl, rfl, hset _⟩
  | settled conflict | lost =>
    simp only [finish]
    split
    · exact ⟨rfl, rfl, rfl, hset _⟩
    · exact ⟨rfl, rfl, rfl, hset _⟩

/-- The end of a write that leaves the record alone. -/
theorem Inv.savedOther [DecidableEq ρ] (hinv : Inv S E Post r₀ w)
    (hwriting : (w.handles h).writing = some wr) (hof : wr.ofChange = false) (answer : Answer)
    (hguard : Undisturbed S w (.saved h answer)) : Inv S E Post r₀ (w.finish h wr answer).1 := by
  obtain ⟨hrunning, hwaiting, hresolved, hhandles⟩ := finish_frame (w := w) h wr answer
  refine hinv.of_local h (hinv.evolves_finish hwriting answer) hhandles ?_ ?_ ?_ ?_
    (hinv.handle_finish hwriting answer) ?_
  · intro c _
    rw [hrunning]
  · intro r _ _
    rw [hrunning]
  · rw [hwaiting]
    exact fun c => (hinv.context c).waiting
  · rw [hresolved]
    exact fun p hp => .inl hp
  · rintro ⟨call, h', phase⟩ hrun rfl
    rw [hrunning] at hrun
    have hphase := ((hinv.context _).running _ hrun).2
    cases phase with
    | reading => trivial
    | «at» base task =>
      obtain ⟨hstate, hcopied, hsound⟩ := hphase
      refine ⟨state_finish wr answer hstate, ?_, hsound⟩
      refine hinv.copied_finish hwriting hof answer hcopied ?_
      intro hreloads
      have hreads := hguard hreloads
      rw [World.ReadsStored, hrun] at hreads
      simpa using hreads
    | saving base next k =>
      obtain ⟨-, -, -, wr', hwr', hof'⟩ := hphase
      obtain rfl : wr = wr' := Option.some.inj (hwriting.symm.trans hwr')
      rw [hof] at hof'
      cases hof'

/-- A write of a change is not tried again. -/
theorem not_ofChange_finish (hof : wr.ofChange = true) (answer : Answer) (wr' : Writing ρ)
    (hwr' : ((w.finish h wr answer).1.handles h).writing = some wr') :
    wr'.ofChange = false := by
  have hreload : ((w.handles h).reload w.stored w.version).writing = none := by
    rw [reload]
    split <;> rfl
  cases answer with
  | failed | lost => simp [finish, rollBack] at hwr'
  | settled conflict =>
    by_cases hcurrent : wr.expected = w.version
    · simp [finish, hcurrent, accept] at hwr'
    · simp only [finish, if_neg hcurrent, setHandle_self] at hwr'
      cases conflict with
      | rejects => simp [conflict, hreload] at hwr'
      | fails => simp [conflict, rollBack] at hwr'
      | closes => simp [conflict] at hwr'
      | again => simp [conflict, hof, hreload] at hwr'

/-- A write that was accepted is what the store holds. -/
theorem accepted_finish {answer : Answer} (haccepted : (w.finish h wr answer).2 = true) :
    (w.finish h wr answer).1.stored = wr.document := by
  cases answer with
  | failed | lost => cases haccepted
  | settled conflict =>
    by_cases hcurrent : wr.expected = w.version
    · simp [finish, hcurrent, store]
    · simp [finish, hcurrent] at haccepted

/-- The end of the write of a change. -/
theorem Inv.savedChange (hinv : Inv S E Post r₀ w) (hwriting : (w.handles h).writing = some wr)
    (hof : wr.ofChange = true) (answer : Answer) :
    Inv S E Post r₀
      ((w.finish h wr answer).1.resume (S.home h) (w.finish h wr answer).2) := by
  obtain ⟨call, base, next, k, hrun, hdocument⟩ := (hinv.handle h).change wr hwriting hof
  obtain ⟨-, hstate, hbase, hsound, -⟩ := (hinv.context _).running _ hrun
  obtain ⟨hrunning, hwaiting, hresolved, hhandles⟩ := finish_frame (w := w) h wr answer
  have hok := hinv.handle_finish hwriting answer
  have hev := hinv.evolves_finish hwriting answer
  have hresume : (w.finish h wr answer).1.resume (S.home h) (w.finish h wr answer).2 =
      (w.finish h wr answer).1.setRunning (S.home h)
        (if (w.finish h wr answer).2 then some ⟨call, h, .at (some next) k⟩ else none) := by
    rw [resume, hrunning, hrun]
  rw [hresume]
  refine hinv.of_local h hev hhandles ?_ ?_ ?_ ?_ ?_ ?_
  · intro c hc
    rw [setRunning_of_ne _ _ _ hc, hrunning]
  · rintro r hr (hold | hnew)
    · rw [hrun] at hold
      cases hold
      exact absurd rfl hr
    · rw [setRunning_self] at hnew
      split at hnew
      · cases hnew
        exact absurd rfl hr
      · cases hnew
  · exact fun c p hp => (hinv.context c).waiting p (by rwa [← hwaiting])
  · exact fun p hp => .inl (by rwa [← hresolved])
  · refine hok.mono rfl (evolves_of_eq rfl rfl) ?_
    intro wr' hwr' hof'
    rw [not_ofChange_finish hof answer wr' hwr'] at hof'
    cases hof'
  · intro r hr _
    rw [setRunning_self] at hr
    split at hr
    · rename_i haccepted
      cases hr
      have hstored := accepted_finish haccepted
      refine ⟨state_finish wr answer hstate, ⟨?_, fun _ => ?_⟩, hsound.2⟩
      · intro r hr
        obtain ⟨⟩ := hr
        obtain ⟨s, hs, hpath⟩ := hinv.stored
        obtain ⟨s', hs', hpath'⟩ := hev.stored s hs
        have hnext : s' = next := by
          rw [hstored, hdocument] at hs'
          exact (Option.some.inj hs').symm
        exact ⟨hnext ▸ hpath.trans hpath', s', hs', hnext ▸ .refl⟩
      · rw [setRunning_stored, hstored, hdocument]
    · cases hr

/-! ### Runs -/

section Runs

variable [DecidableEq ρ]

theorem Inv.step (hsound : ∀ call base, (S.change call base).Sound E (Post call) base)
    (hinv : Inv S E Post r₀ w) {a : Act κ A} (hguard : Undisturbed S w a)
    (hstep : w.step S a = some w') : Inv S E Post r₀ w' := by
  cases a with
  | openHandle h =>
    simp only [World.step, Option.ite_none_right_eq_some, Option.some.injEq] at hstep
    obtain ⟨hunopened, rfl⟩ := hstep
    exact hinv.openHandle hunopened
  | close h =>
    obtain ⟨⟩ := hstep
    exact hinv.close h
  | request h call =>
    obtain ⟨⟩ := hstep
    exact hinv.request h call
  | acquire c =>
    simp only [World.step] at hstep
    split at hstep
    · cases hstep
    · rename_i call h rest hwaiting
      simp only [Option.ite_none_right_eq_some, Option.some.injEq] at hstep
      obtain ⟨hmay, rfl⟩ := hstep
      simp only [mayAcquire, decide_eq_true_eq, Option.isNone_iff_eq_none] at hmay
      exact hinv.acquire hwaiting hmay.1
  | read c =>
    simp only [World.step] at hstep
    split at hstep
    · rename_i call h hrun
      obtain ⟨rfl, -⟩ := (hinv.context c).running _ hrun
      have hok := hinv.handle h
      split at hstep
      · rename_i hopened
        obtain ⟨⟩ := hstep
        refine hinv.setRunning hrun nofun ?_
        intro x hx
        obtain ⟨⟩ := hx
        have hother := hok.not_ofChange hrun nofun
        exact ⟨rfl, by simp [hopened], hok.doc hother hopened, hsound call _⟩
      · obtain ⟨⟩ := hstep
        exact hinv.setRunning hrun nofun nofun
    · cases hstep
  | answer c reply =>
    simp only [World.step] at hstep
    split at hstep
    · rename_i call h base question k hrun
      obtain ⟨⟩ := hstep
      obtain ⟨-, hstate, hbase, hask⟩ := (hinv.context c).running _ hrun
      refine hinv.setRunning hrun nofun ?_
      intro x hx
      obtain ⟨⟩ := hx
      exact ⟨rfl, hstate, hbase, hask reply⟩
    · cases hstep
  | beginPut c =>
    simp only [World.step] at hstep
    split at hstep
    · rename_i call h base next k hrun
      split at hstep
      · obtain ⟨⟩ := hstep
        exact hinv.setRunning hrun nofun nofun
      · rename_i hgood
        have hopened : (w.handles h).state = .opened := by
          by_contra hnot
          exact hgood (.inl hnot)
        simp only [Option.ite_none_left_eq_some, Option.some.injEq, Option.isSome_iff_ne_none,
          ne_eq, not_not] at hstep
        obtain ⟨hidle, rfl⟩ := hstep
        exact hinv.beginPut hrun hopened hidle
    · cases hstep
  | settle c =>
    simp only [World.step] at hstep
    split at hstep
    · rename_i call h base result hrun
      obtain ⟨⟩ := hstep
      exact hinv.settle hrun
    · rename_i hrun
      obtain ⟨⟩ := hstep
      exact hinv.setRunning hrun nofun nofun
    · cases hstep
  | beginOther h =>
    simp only [World.step, Option.ite_none_right_eq_some, Option.some.injEq,
      Option.isNone_iff_eq_none] at hstep
    obtain ⟨⟨hopened, hidle⟩, rfl⟩ := hstep
    exact hinv.beginOther hopened hidle
  | saved h answer =>
    simp only [World.step] at hstep
    split at hstep
    · cases hstep
    · rename_i wr hwriting
      obtain ⟨⟩ := hstep
      cases hof : wr.ofChange with
      | false => simpa using hinv.savedOther hwriting hof answer hguard
      | true => simpa using hinv.savedChange hwriting hof answer

omit [DecidableEq ρ] in
/-- Nothing is stored but by the end of a write. -/
theorem stored_step {a : Act κ A} (ha : ∀ h answer, a ≠ .saved h answer)
    (hstep : w.step S a = some w') : w'.stored = w.stored := by
  cases a with
  | saved h answer => exact absurd rfl (ha h answer)
  | close h | request h call =>
    obtain ⟨⟩ := hstep
    rfl
  | openHandle h | beginOther h =>
    simp only [step, Option.ite_none_right_eq_some, Option.some.injEq] at hstep
    obtain ⟨-, rfl⟩ := hstep
    rfl
  | acquire c | read c | answer c reply | beginPut c | settle c =>
    simp only [step] at hstep
    repeat' split at hstep
    all_goals cases hstep
    all_goals rfl

omit [DecidableEq ρ] in
/-- What a step stores is an edit of what was stored. -/
theorem Inv.stored_step (hinv : Inv S E Post r₀ w) {a : Act κ A}
    (hstep : w.step S a = some w') :
    ∀ s, w.stored = some s → ∃ s', w'.stored = some s' ∧ ReflTransGen E s s' := by
  by_cases ha : ∀ h answer, a ≠ .saved h answer
  · intro s hs
    exact ⟨s, (Versioned.stored_step ha hstep).trans hs, .refl⟩
  · push Not at ha
    obtain ⟨h, answer, rfl⟩ := ha
    simp only [World.step] at hstep
    split at hstep
    · cases hstep
    · rename_i wr hwriting
      obtain ⟨⟩ := hstep
      have hev := (hinv.evolves_finish hwriting answer).stored
      have hresume : ∀ c accepted, ((w.finish h wr answer).1.resume c accepted).stored =
          (w.finish h wr answer).1.stored := by
        intro c accepted
        rw [resume]
        split <;> rfl
      split
      · rwa [hresume]
      · exact hev

variable (S r₀) in
/-- A store with a record that some handles have read, and nothing under way. -/
structure Fresh (w : World ρ κ ε Q A) : Prop where
  stored : w.stored = some r₀
  seen_le : ∀ h, (w.handles h).seen ≤ w.version
  writing : ∀ h, (w.handles h).writing = none
  doc : ∀ h, (w.handles h).state = .opened →
    (w.handles h).doc = if (w.handles h).seen = w.version then some r₀ else none
  running : ∀ c, w.running c = none
  waiting : ∀ c, w.waiting c = []
  resolved : w.resolved = []

omit [DecidableEq ρ] in
theorem Fresh.inv (hfresh : Fresh r₀ w) : Inv S E Post r₀ w := by
  refine ⟨⟨r₀, hfresh.stored, .refl⟩, ?_, ?_, ?_⟩
  · intro h
    refine .of_idle rfl (hfresh.writing h) (hfresh.seen_le h) fun hopened => ?_
    rw [hfresh.doc h hopened]
    refine ⟨?_, ?_⟩
    · intro r hr
      split at hr
      · obtain ⟨⟩ := hr
        exact ⟨.refl, r₀, hfresh.stored, .refl⟩
      · cases hr
    · intro hcurrent
      rw [if_pos hcurrent, hfresh.stored]
  · intro c
    refine ⟨?_, ?_⟩
    · intro r hr
      rw [hfresh.running] at hr
      cases hr
    · intro p hp
      rw [hfresh.waiting] at hp
      cases hp
  · intro p hp
    rw [hfresh.resolved] at hp
    cases hp

/-- **Undisturbed runs are serial.** -/
theorem inv_of_run (hsound : ∀ call base, (S.change call base).Sound E (Post call) base)
    {as : List (Act κ A)} (hinv : Inv S E Post r₀ w)
    (hguard : Transition.Under (Undisturbed S) (step S) w as)
    (hrun : run (step S) w as = some w') : Inv S E Post r₀ w' :=
  run_invariant_of_under (fun _ _ _ hinv hG hstep => hinv.step hsound hG hstep) hinv
    hguard hrun

/-- The record moves along the edits. -/
theorem stored_of_run (hsound : ∀ call base, (S.change call base).Sound E (Post call) base)
    {as : List (Act κ A)} (hinv : Inv S E Post r₀ w)
    (hguard : Transition.Under (Undisturbed S) (step S) w as)
    (hrun : run (step S) w as = some w') :
    ∃ s s', w.stored = some s ∧ w'.stored = some s' ∧ ReflTransGen E s s' := by
  obtain ⟨s, hs, -⟩ := hinv.stored
  have hends := run_invariant_of_under
    (I := fun v => Inv S E Post r₀ v ∧ ∃ s', v.stored = some s' ∧ ReflTransGen E s s')
    ?_ ⟨hinv, s, hs, .refl⟩ hguard hrun
  · obtain ⟨-, s', hs', hpath⟩ := hends
    exact ⟨s, s', hs, hs', hpath⟩
  · rintro v a v' ⟨hv, t, ht, hpath⟩ hG hstep
    obtain ⟨t', ht', hpath'⟩ := hv.stored_step hstep t ht
    exact ⟨hv.step hsound hG hstep, t', ht', hpath.trans hpath'⟩

end Runs

end Versioned
