import Mathlib.Logic.Basic

/-!
# Runs of a labelled transition function

A system is a partial step function `step : σ → ι → Option σ`: the action carries every
choice of the environment, and `none` says that the action is not enabled. `run` folds a
list of actions. The rules below package the induction over a run once: `run_invariant` for
a property that every step preserves, `run_invariant_of_under` for one that a step
preserves only where it meets a guard, and `run_rel` for a relation that a run inherits from
its steps.
-/

namespace Transition

variable {σ ι : Type*} {step : σ → ι → Option σ}

/-- The state after a list of actions, `none` as soon as one of them is not enabled. -/
def run (step : σ → ι → Option σ) : σ → List ι → Option σ
  | s, [] => some s
  | s, a :: as => (step s a).bind fun t => run step t as

@[simp]
theorem run_nil (s : σ) : run step s [] = some s := rfl

variable {as : List ι}

theorem run_cons_eq_some {s u : σ} {a : ι} :
    run step s (a :: as) = some u ↔ ∃ t, step s a = some t ∧ run step t as = some u := by
  simp [run, Option.bind_eq_some_iff]

variable {s : σ}

theorem run_append {as bs : List ι} :
    run step s (as ++ bs) = (run step s as).bind fun t => run step t bs := by
  induction as generalizing s with
  | nil => rfl
  | cons a as ih =>
    simp only [List.cons_append, run]
    cases step s a with
    | none => rfl
    | some t => exact ih

theorem run_append_eq_some {s u : σ} {as bs : List ι} :
    run step s (as ++ bs) = some u ↔ ∃ t, run step s as = some t ∧ run step t bs = some u := by
  rw [run_append, Option.bind_eq_some_iff]

/-- **Invariant rule.** What every step preserves holds after every run. -/
theorem run_invariant {I : σ → Prop} (hstep : ∀ s a t, I s → step s a = some t → I t) {s t : σ}
    (hs : I s) (hrun : run step s as = some t) : I t := by
  induction as generalizing s with
  | nil => exact Option.some.inj hrun ▸ hs
  | cons a as ih =>
    obtain ⟨u, hu, hrest⟩ := run_cons_eq_some.mp hrun
    exact ih (hstep s a u hs hu) hrest

/-- **Relation rule.** A reflexive and transitive relation between the two ends of every
step relates the two ends of every run. -/
theorem run_rel {R : σ → σ → Prop} (hrefl : ∀ s, R s s) (htrans : ∀ s t u, R s t → R t u → R s u)
    (hstep : ∀ s a t, step s a = some t → R s t) {s t : σ} (hrun : run step s as = some t) :
    R s t := by
  induction as generalizing s with
  | nil => exact Option.some.inj hrun ▸ hrefl s
  | cons a as ih =>
    obtain ⟨u, hu, hrest⟩ := run_cons_eq_some.mp hrun
    exact htrans s u t (hstep s a u hu) (ih hrest)

/-! ### Guarded runs -/

/-- Every action of the run meets the guard `G` in the state it is taken from. -/
def Under (G : σ → ι → Prop) (step : σ → ι → Option σ) : σ → List ι → Prop
  | _, [] => True
  | s, a :: as => G s a ∧ ∀ t, step s a = some t → Under G step t as

/-- Every state that the run passes through, its first one included, satisfies `P`. -/
def Throughout (P : σ → Prop) (step : σ → ι → Option σ) : σ → List ι → Prop
  | s, [] => P s
  | s, a :: as => P s ∧ ∀ t, step s a = some t → Throughout P step t as

variable {G : σ → ι → Prop} {P : σ → Prop}

instance Under.decidable [∀ s a, Decidable (G s a)] :
    ∀ (s : σ) (as : List ι), Decidable (Under G step s as)
  | _, [] => isTrue trivial
  | s, a :: as =>
    match h : step s a with
    | none => decidable_of_iff (G s a)
        ⟨fun hG => ⟨hG, fun _ ht => absurd (h.symm.trans ht) nofun⟩, And.left⟩
    | some t =>
      have := Under.decidable t as
      decidable_of_iff (G s a ∧ Under G step t as)
        (and_congr_right fun _ => ⟨fun hu _ ht => Option.some.inj (h.symm.trans ht) ▸ hu,
          fun hu => hu t h⟩)

theorem Throughout.head (h : Throughout P step s as) : P s := by
  cases as with
  | nil => exact h
  | cons a as => exact h.1

theorem Throughout.mono {P' : σ → Prop} (hP : ∀ s, P s → P' s) (h : Throughout P step s as) :
    Throughout P' step s as := by
  induction as generalizing s with
  | nil => exact hP s h
  | cons a as ih => exact ⟨hP s h.1, fun t ht => ih (h.2 t ht)⟩

/-- The last state is one of those on the way. -/
theorem Throughout.last {s t : σ} (h : Throughout P step s as) (hrun : run step s as = some t) :
    P t := by
  induction as generalizing s with
  | nil => exact Option.some.inj hrun ▸ h
  | cons a as ih =>
    obtain ⟨u, hu, hrest⟩ := run_cons_eq_some.mp hrun
    exact ih (h.2 u hu) hrest

theorem Under.cons {s t : σ} {a : ι} (hG : G s a) (ht : step s a = some t) (h : Under G step t as) :
    Under G step s (a :: as) :=
  ⟨hG, fun _ hu => Option.some.inj (ht.symm.trans hu) ▸ h⟩

theorem Under.append {s t : σ} {as bs : List ι} (h : Under G step s (as ++ bs))
    (hrun : run step s as = some t) : Under G step t bs := by
  induction as generalizing s with
  | nil => exact Option.some.inj hrun ▸ h
  | cons a as ih =>
    obtain ⟨u, hu, hrest⟩ := run_cons_eq_some.mp hrun
    exact ih (h.2 u hu) hrest

theorem Under.left {as bs : List ι} (h : Under G step s (as ++ bs)) :
    Under G step s as := by
  induction as generalizing s with
  | nil => trivial
  | cons a as ih => exact ⟨h.1, fun t ht => ih (h.2 t ht)⟩

theorem Under.and {G' : σ → ι → Prop} (h : Under G step s as) (h' : Under G' step s as) :
    Under (fun s a => G s a ∧ G' s a) step s as := by
  induction as generalizing s with
  | nil => trivial
  | cons a as ih => exact ⟨⟨h.1, h'.1⟩, fun t ht => ih (h.2 t ht) (h'.2 t ht)⟩

theorem Under.mono {G' : σ → ι → Prop} (hG : ∀ s a, G s a → G' s a) (h : Under G step s as) :
    Under G' step s as := by
  induction as generalizing s with
  | nil => trivial
  | cons a as ih => exact ⟨hG s a h.1, fun t ht => ih (h.2 t ht)⟩

/-- A guard on the action alone is met by a run of such actions. -/
theorem under_of_forall_mem {p : ι → Prop} (h : ∀ a ∈ as, p a) :
    Under (fun _ a => p a) step s as := by
  induction as generalizing s with
  | nil => trivial
  | cons a as ih =>
    exact ⟨h a (.head _), fun t _ => ih fun b hb => h b (.tail _ hb)⟩

/-- **Guarded invariant rule.** What a step preserves wherever it meets the guard holds
after every run whose steps all meet it. -/
theorem run_invariant_of_under {I : σ → Prop}
    (hstep : ∀ s a t, I s → G s a → step s a = some t → I t) {s t : σ} (hs : I s)
    (hG : Under G step s as) (hrun : run step s as = some t) : I t := by
  induction as generalizing s with
  | nil => exact Option.some.inj hrun ▸ hs
  | cons a as ih =>
    obtain ⟨u, hu, hrest⟩ := run_cons_eq_some.mp hrun
    exact ih (hstep s a u hs hG.1 hu) (hG.2 u hu) hrest

/-- A guarded invariant holds in every state on the way, not only in the last one. -/
theorem throughout_of_under (hstep : ∀ s a t, P s → G s a → step s a = some t → P t) (hs : P s)
    (hG : Under G step s as) :
    Throughout P step s as := by
  induction as generalizing s with
  | nil => exact hs
  | cons a as ih => exact ⟨hs, fun t ht => ih (hstep s a t hs hG.1 ht) (hG.2 t ht)⟩

/-- Where a step that misses the guard always breaks the property, a run keeps the property
throughout only by meeting the guard at every enabled step. -/
theorem under_of_throughout (hbreak : ∀ s a t, P s → step s a = some t → ¬ G s a → ¬ P t)
    (hdisabled : ∀ s a, step s a = none → G s a) (h : Throughout P step s as) :
    Under G step s as := by
  induction as generalizing s with
  | nil => trivial
  | cons a as ih =>
    refine ⟨Classical.byContradiction fun hG => ?_, fun t ht => ih (h.2 t ht)⟩
    cases hs : step s a with
    | none => exact hG (hdisabled s a hs)
    | some t => exact hbreak s a t h.1 hs hG (h.2 t hs).head

end Transition
