import Mathlib.Data.List.Basic

/-!
# Readers of a wire format

A reader takes symbols off the front of an input and gives a value, or an error that may name the
place. `Reads p R` says what it accepts: it reads `a` off exactly those inputs that begin with a
text of `a`, where `R` relates a value to its texts, and it leaves what follows that text. A
format is then described by the relations, and the reader of a compound reads a text of its first
part and, after it, one of its second (`Reads.bind`). Both directions of a round trip are read
off one `Reads`: a text is accepted, and what is accepted is a text.
-/

namespace Wire

/-- A place in an input: how many symbols have been read, and those that are left. -/
structure Cursor (σ : Type) where
  pos : ℕ
  rest : List σ
deriving DecidableEq

/-- A reader of `α` from symbols `σ`, with errors `ε`. -/
abbrev Reader (σ ε α : Type) := StateT (Cursor σ) (Except ε) α

/-- The reader reads `a` off exactly the inputs that begin with a text of `a`. -/
def Reads {σ ε α : Type} (p : Reader σ ε α) (R : α → List σ → Prop) : Prop :=
  ∀ c a c', p.run c = .ok (a, c') ↔
    ∃ used, R a used ∧ c.rest = used ++ c'.rest ∧ c'.pos = c.pos + used.length

variable {σ ε α β : Type} {p : Reader σ ε α} {R : α → List σ → Prop}

theorem Reads.congr {S : α → List σ → Prop} (hp : Reads p R) (h : ∀ a used, R a used ↔ S a used) :
    Reads p S := by
  intro c a c'
  rw [hp c a c']
  exact exists_congr fun used => and_congr_left fun _ => h a used

/-! ### Composition -/

theorem reads_pure (a : α) : Reads (pure a : Reader σ ε α) fun b used => b = a ∧ used = [] := by
  intro c b c'
  rw [StateT.run_pure]
  constructor
  · rintro ⟨⟩
    exact ⟨[], ⟨rfl, rfl⟩, rfl, rfl⟩
  · rintro ⟨_, ⟨rfl, rfl⟩, hrest, hpos⟩
    obtain ⟨pos, rest⟩ := c'
    have hc : c = ⟨pos, rest⟩ := by
      cases c
      simp_all
    rw [hc]
    rfl

/-- One reader after the other reads one text after the other. -/
theorem Reads.bind {f : α → Reader σ ε β} {S : α → β → List σ → Prop} (hp : Reads p R)
    (hf : ∀ a, Reads (f a) (S a)) : Reads (p >>= f) fun b used =>
      ∃ a first second, R a first ∧ S a b second ∧ used = first ++ second := by
  intro c b c'
  rw [StateT.run_bind]
  constructor
  · intro h
    cases hrun : p.run c with
    | error e =>
      rw [hrun] at h
      exact nomatch h
    | ok r =>
      obtain ⟨a, mid⟩ := r
      rw [hrun] at h
      obtain ⟨first, hfirst, hrest, hpos⟩ := (hp c a mid).mp hrun
      obtain ⟨second, hsecond, hrest', hpos'⟩ := (hf a mid b c').mp h
      refine ⟨first ++ second, ⟨a, first, second, hfirst, hsecond, rfl⟩, ?_, ?_⟩
      · rw [hrest, hrest', List.append_assoc]
      · rw [hpos', hpos, List.length_append, Nat.add_assoc]
  · rintro ⟨_, ⟨a, first, second, hfirst, hsecond, rfl⟩, hrest, hpos⟩
    have hrun : p.run c = .ok (a, ⟨c.pos + first.length, second ++ c'.rest⟩) :=
      (hp c a _).mpr ⟨first, hfirst, by rw [hrest, List.append_assoc], rfl⟩
    have hrun' : (f a).run ⟨c.pos + first.length, second ++ c'.rest⟩ = .ok (b, c') :=
      (hf a _ b c').mpr ⟨second, hsecond, rfl, by
        rw [hpos, List.length_append, Nat.add_assoc]⟩
    rw [hrun]
    exact hrun'

/-- A reader that only changes what it has read. -/
theorem Reads.map (hp : Reads p R) (f : α → β) :
    Reads (f <$> p) fun b used => ∃ a, R a used ∧ b = f a := by
  rw [← bind_pure_comp]
  refine (hp.bind fun a => reads_pure (f a)).congr fun b used => ?_
  constructor
  · rintro ⟨a, first, second, hfirst, ⟨rfl, rfl⟩, rfl⟩
    exact ⟨a, by rwa [List.append_nil], rfl⟩
  · rintro ⟨a, ha, rfl⟩
    exact ⟨a, used, [], ha, ⟨rfl, rfl⟩, (List.append_nil used).symm⟩

/-! ### Primitives -/

/-- Refuse in a case. -/
def refuseIf (refused : Prop) [Decidable refused] (e : ε) : Reader σ ε Unit :=
  if refused then throw e else pure ()

theorem reads_refuseIf (refused : Prop) [Decidable refused] (e : ε) :
    Reads (refuseIf refused e : Reader σ ε Unit) fun _ used => ¬refused ∧ used = [] := by
  by_cases h : refused
  · intro c a c'
    simp only [refuseIf, if_pos h]
    refine iff_of_false nofun ?_
    rintro ⟨used, ⟨hnot, -⟩, -⟩
    exact hnot h
  · rw [refuseIf, if_neg h]
    exact (reads_pure ()).congr fun a used => by simp [h]

/-- The next `n` symbols. The error is told the place where they end too early. -/
def take (truncated : ℕ → ε) (n : ℕ) : Reader σ ε (List σ) := fun c =>
  if n ≤ c.rest.length then .ok (c.rest.take n, ⟨c.pos + n, c.rest.drop n⟩)
  else .error (truncated c.pos)

theorem reads_take (truncated : ℕ → ε) (n : ℕ) :
    Reads (take truncated n : Reader σ ε (List σ)) fun text used =>
      text = used ∧ used.length = n := by
  intro c text c'
  rw [StateT.run, take]
  constructor
  · intro h
    split at h
    · next hn =>
      cases h
      refine ⟨c.rest.take n, ⟨rfl, ?_⟩, (List.take_append_drop n c.rest).symm, ?_⟩
      · exact List.length_take_of_le hn
      · rw [List.length_take_of_le hn]
    · cases h
  · rintro ⟨used, ⟨rfl, rfl⟩, hrest, hpos⟩
    have hn : text.length ≤ c.rest.length := by
      rw [hrest, List.length_append]
      omega
    rw [if_pos hn, hrest, List.take_left, List.drop_left, ← hpos]

/-- The reader together with the text that it reads. -/
def captured (p : Reader σ ε α) : Reader σ ε (α × List σ) := fun c => do
  let (a, c') ← p.run c
  pure ((a, c.rest.take (c'.pos - c.pos)), c')

theorem Reads.captured (hp : Reads p R) :
    Reads (captured p) fun r used => R r.1 used ∧ r.2 = used := by
  intro c r c'
  obtain ⟨a, text⟩ := r
  rw [StateT.run, Wire.captured]
  constructor
  · intro h
    cases hrun : p.run c with
    | error e =>
      rw [hrun] at h
      cases h
    | ok r =>
      obtain ⟨b, mid⟩ := r
      rw [hrun] at h
      cases h
      obtain ⟨used, hused, hrest, hpos⟩ := (hp c a c').mp hrun
      refine ⟨used, ⟨hused, ?_⟩, hrest, hpos⟩
      rw [hpos, Nat.add_sub_cancel_left, hrest, List.take_left]
  · rintro ⟨used, ⟨hused, rfl⟩, hrest, hpos⟩
    have hrun : p.run c = .ok (a, c') := (hp c a c').mpr ⟨_, hused, hrest, hpos⟩
    rw [hrun]
    have htext : c.rest.take (c'.pos - c.pos) = text := by
      rw [hpos, Nat.add_sub_cancel_left, hrest, List.take_left]
    exact congrArg (fun text => Except.ok ((a, text), c')) htext

/-! ### Repetition -/

/-- A reader, a number of times. -/
def many (p : Reader σ ε α) : ℕ → Reader σ ε (List α)
  | 0 => pure []
  | n + 1 => do
    let a ← p
    let as ← many p n
    pure (a :: as)

/-- The texts of the values of a list, one after the other. -/
inductive Texts (R : α → List σ → Prop) : List α → List σ → Prop
  | nil : Texts R [] []
  | cons {a : α} {as : List α} {first second : List σ} (ha : R a first) (has : Texts R as second) :
      Texts R (a :: as) (first ++ second)

theorem reads_many (hp : Reads p R) (n : ℕ) :
    Reads (many p n) fun as used => as.length = n ∧ Texts R as used := by
  induction n with
  | zero =>
    refine (reads_pure []).congr fun as used => ?_
    constructor
    · rintro ⟨rfl, rfl⟩
      exact ⟨rfl, .nil⟩
    · rintro ⟨hlen, htexts⟩
      obtain rfl := List.length_eq_zero_iff.mp hlen
      cases htexts
      exact ⟨rfl, rfl⟩
  | succ n ih =>
    refine (hp.bind fun a => ih.bind fun as => reads_pure (a :: as)).congr fun as used => ?_
    constructor
    · rintro ⟨a, first, second, ha, ⟨as, third, fourth, ⟨hlen, htexts⟩, ⟨rfl, rfl⟩, rfl⟩, rfl⟩
      rw [List.append_nil]
      exact ⟨congrArg (· + 1) hlen, .cons ha htexts⟩
    · rintro ⟨hlen, htexts⟩
      cases htexts with
      | nil => cases hlen
      | cons ha has =>
        exact ⟨_, _, _, ha, ⟨_, _, [], ⟨Nat.succ.inj hlen, has⟩, ⟨rfl, rfl⟩,
          (List.append_nil _).symm⟩, rfl⟩

theorem Texts.eq_flatMap {f : α → List σ} {as : List α} {used : List σ} (h : Texts R as used)
    (hR : ∀ a used, R a used → used = f a) : used = as.flatMap f := by
  induction h with
  | nil => rfl
  | cons ha _ ih => rw [hR _ _ ha, ih, List.flatMap_cons]

/-! ### Two texts of one value -/

/-- A relation between texts that is kept when texts are written one after the other. -/
structure KeptByAppend (P : List σ → List σ → Prop) : Prop where
  refl : ∀ text, P text text
  append : ∀ {a b c d}, P a b → P c d → P (a ++ c) (b ++ d)

/-- Where every text of `R` has one of `S` that `P` relates to it, so has every text of a list. -/
theorem Texts.transfer {P : List σ → List σ → Prop} (hP : KeptByAppend P)
    {S : α → List σ → Prop} {as : List α} {used : List σ} (has : Texts R as used)
    (h : ∀ a used, a ∈ as → R a used → ∃ text, S a text ∧ P text used) :
    ∃ text, Texts S as text ∧ P text used := by
  induction has with
  | nil => exact ⟨[], .nil, hP.refl []⟩
  | cons ha _ ih =>
    obtain ⟨first, hfirst, hPfirst⟩ := h _ _ (.head _) ha
    obtain ⟨second, hsecond, hPsecond⟩ := ih fun a used hmem => h a used (.tail _ hmem)
    exact ⟨first ++ second, .cons hfirst hsecond, hP.append hPfirst hPsecond⟩

theorem keptByAppend_eq : KeptByAppend (Eq : List σ → List σ → Prop) where
  refl _ := rfl
  append h h' := by rw [h, h']

/-- The text is the standard one, or it is longer. -/
def EqOrLonger (standard text : List σ) : Prop := standard = text ∨ standard.length < text.length

theorem keptByAppend_eqOrLonger : KeptByAppend (EqOrLonger : List σ → List σ → Prop) where
  refl _ := .inl rfl
  append h h' := by
    rcases h with rfl | h <;> rcases h' with rfl | h'
    · exact .inl rfl
    all_goals
      right
      rw [List.length_append, List.length_append]
      omega

theorem EqOrLonger.eq_of_length {standard text : List σ} (h : EqOrLonger standard text)
    (hlen : text.length = standard.length) : standard = text :=
  h.resolve_right (by omega)

end Wire
