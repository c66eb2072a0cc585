import Mathlib.Data.List.Forall2

/-!
# Checks that refuse

A check is an `Except ε Unit`: it passes, or refuses with an error. What a row of checks accepts is
read off by rewriting: a row passes where each of its checks does (`bind_eq_ok`), and a loop that
checks two lists element by element passes where all pairs do (`checkEach_eq_ok`).
-/

namespace Checks

variable {ε α β : Type}

/-- Refuse in a case. -/
def refuseIf (refused : Prop) [Decidable refused] (e : ε) : Except ε Unit :=
  if refused then .error e else .ok ()

/-- Refuse where there is no value. -/
def orRefuse (value : Option α) (e : ε) : Except ε α :=
  match value with
  | some a => .ok a
  | none => .error e

variable {f : α → Except ε β}

@[simp]
theorem bind_eq_ok {x : Except ε α} {b : β} : (x >>= f) = .ok b ↔ ∃ a, x = .ok a ∧ f a = .ok b := by
  cases x with
  | error e | ok a => simp [bind, Except.bind]

@[simp]
theorem refuseIf_eq_ok {refused : Prop} [Decidable refused] {e : ε} {u : Unit} :
    refuseIf refused e = .ok u ↔ ¬refused := by
  by_cases h : refused <;> simp [refuseIf, h]

@[simp]
theorem orRefuse_eq_ok {value : Option α} {e : ε} {a : α} :
    orRefuse value e = .ok a ↔ value = some a := by
  cases value <;> simp [orRefuse]

@[simp]
theorem mapError_eq_ok {δ : Type} {x : Except ε α} {f : ε → δ} {a : α} :
    x.mapError f = .ok a ↔ x = .ok a := by
  cases x <;> simp [Except.mapError]

theorem map_eq_ok {x : Except ε α} {f : α → β} {b : β} :
    x.map f = .ok b ↔ ∃ a, x = .ok a ∧ f a = b := by
  cases x <;> simp [Except.map]

@[simp]
theorem pure_eq_ok {a b : α} : (pure a : Except ε α) = .ok b ↔ a = b := ⟨Except.ok.inj, congrArg _⟩

variable {as : List α} {bs : List β}

/-- What a loop over a list makes, and that it makes it where each turn does. -/
theorem mem_of_mapM_eq_ok (h : as.mapM f = .ok bs) (b : β) : b ∈ bs ↔ ∃ a ∈ as, f a = .ok b := by
  induction as generalizing bs with
  | nil =>
    cases h
    simp
  | cons a as ih =>
    simp only [List.mapM_cons, bind_eq_ok, pure_eq_ok] at h
    obtain ⟨first, hfirst, rest, hrest, rfl⟩ := h
    rw [List.mem_cons, ih hrest]
    simp [hfirst, eq_comm]

theorem eq_map_of_mapM_eq_ok {g : α → β} (h : as.mapM f = .ok bs)
    (hf : ∀ a ∈ as, ∀ b, f a = .ok b → b = g a) : bs = as.map g := by
  induction as generalizing bs with
  | nil => exact (Except.ok.inj h).symm
  | cons a as ih =>
    simp only [List.mapM_cons, bind_eq_ok, pure_eq_ok] at h
    obtain ⟨b, hb, rest, hrest, rfl⟩ := h
    rw [List.map_cons, hf a (.head _) b hb, ih hrest fun a' ha' => hf a' (.tail _ ha')]

theorem ok_of_mapM_eq_ok (h : as.mapM f = .ok bs) {a : α} (ha : a ∈ as) : ∃ b, f a = .ok b := by
  induction as generalizing bs with
  | nil => cases ha
  | cons first as ih =>
    simp only [List.mapM_cons, bind_eq_ok, pure_eq_ok] at h
    obtain ⟨b, hb, rest, hrest, rfl⟩ := h
    rcases List.mem_cons.mp ha with rfl | ha
    · exact ⟨b, hb⟩
    · exact ih hrest ha

/-- A loop that reads each element with its index reads what it would without. -/
theorem map_of_mapM_zipIdx {γ : Type} {f : α × ℕ → Except ε β} {k : α → Option γ} {g : β → γ}
    (hf : ∀ a i b, f (a, i) = .ok b → k a = some (g b)) (l : List α) (i : ℕ)
    (h : (l.zipIdx i).mapM f = .ok bs) : l.map k = (bs.map g).map some := by
  induction l generalizing i bs with
  | nil =>
    cases h
    rfl
  | cons a l ih =>
    rw [List.zipIdx_cons, List.mapM_cons] at h
    simp only [bind_eq_ok, pure_eq_ok] at h
    obtain ⟨b, hb, rest, hrest, rfl⟩ := h
    rw [List.map_cons, List.map_cons, List.map_cons, hf a i b hb, ih (i + 1) hrest]

theorem exists_mapM_eq_ok (h : ∀ a ∈ as, ∃ b, f a = .ok b) : ∃ bs, as.mapM f = .ok bs := by
  induction as with
  | nil => exact ⟨[], rfl⟩
  | cons a as ih =>
    obtain ⟨b, hb⟩ := h a (.head _)
    obtain ⟨bs, hbs⟩ := ih fun a ha => h a (.tail _ ha)
    refine ⟨b :: bs, ?_⟩
    simp only [List.mapM_cons, bind_eq_ok, pure_eq_ok]
    exact ⟨b, hb, bs, hbs, rfl⟩

/-- The pairs of two lists in turn, with their index, from index `i` on. -/
def checkEach (check : ℕ → α → β → Except ε Unit) : ℕ → List α → List β → Except ε Unit
  | i, a :: as, b :: bs => do
    check i a b
    checkEach check (i + 1) as bs
  | _, _, _ => .ok ()

theorem checkEach_eq_ok {check : ℕ → α → β → Except ε Unit} {P : α → β → Prop}
    (hcheck : ∀ i a b, check i a b = .ok () ↔ P a b) (i : ℕ) (hlength : as.length = bs.length) :
    checkEach check i as bs = .ok () ↔ List.Forall₂ P as bs := by
  induction as generalizing i bs with
  | nil =>
    obtain rfl := List.length_eq_zero_iff.mp hlength.symm
    exact iff_of_true rfl .nil
  | cons a as ih =>
    cases bs with
    | nil => cases hlength
    | cons b bs =>
      have htail := ih (i + 1) (Nat.succ.inj hlength)
      rw [checkEach, bind_eq_ok, List.forall₂_cons, ← hcheck i a b, ← htail]
      constructor
      · rintro ⟨⟨⟩, hhead, htail⟩
        exact ⟨hhead, htail⟩
      · rintro ⟨hhead, htail⟩
        exact ⟨(), hhead, htail⟩

/-- The same, index by index, for checks that depend on it. -/
theorem checkEach_eq_ok_iff {check : ℕ → α → β → Except ε Unit} {i : ℕ} :
    checkEach check i as bs = .ok () ↔
      ∀ k a b, as[k]? = some a → bs[k]? = some b → check (i + k) a b = .ok () := by
  induction as generalizing i bs with
  | nil => simp [checkEach]
  | cons a as ih =>
    cases bs with
    | nil => simp [checkEach]
    | cons b bs =>
      rw [checkEach, bind_eq_ok]
      constructor
      · rintro ⟨⟨⟩, hhead, htail⟩ k a' b' ha hb
        cases k with
        | zero =>
          cases ha
          cases hb
          exact hhead
        | succ k =>
          have hrest := ih.mp htail k a' b' ha hb
          rwa [Nat.add_right_comm, Nat.add_assoc] at hrest
      · intro h
        refine ⟨(), h 0 a b rfl rfl, ih.mpr fun k a' b' ha hb => ?_⟩
        have hrest := h (k + 1) a' b' ha hb
        rwa [← Nat.add_assoc, Nat.add_right_comm] at hrest

/-- Two lists that match a third agree in what the third decides. -/
theorem map_eq_of_forall₂ {γ δ : Type} {P : α → γ → Prop} {f : α → δ} {as bs : List α}
    {cs : List γ} (ha : List.Forall₂ P as cs) (hb : List.Forall₂ P bs cs)
    (hf : ∀ a ∈ as, ∀ b ∈ bs, ∀ c, P a c → P b c → f a = f b) : as.map f = bs.map f := by
  induction ha generalizing bs with
  | nil =>
    cases hb
    rfl
  | cons hhead _ ih =>
    cases hb with
    | cons hhead' htail' =>
      have hfirst := hf _ (.head _) _ (.head _) _ hhead hhead'
      have hrest := ih htail' fun a ha b hb =>
        hf a (.tail _ ha) b (.tail _ hb)
      rw [List.map_cons, List.map_cons, hfirst, hrest]

end Checks
