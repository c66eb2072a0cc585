import XchainWallet.Traced.Program

/-!
# Stores that refuse writes

A program over a store that reads it and writes to it, where the environment may refuse any write: a
refused write leaves the store as it was and throws. Which writes are taken is part of the world, so a
statement about all worlds is one about every way in which the writes fail.

A `Triple` says what a program leaves behind: one assertion for where it returns, and one for where it
throws, which must hold of every store that a prefix of its writes leads to.
-/

/-- A store, and for each write to come whether the environment takes it. -/
structure Flaky (σ : Type) where
  store : σ
  takes : ℕ → Bool

namespace Traced

variable {σ ι ε α β : Type}

/-- What the store holds. -/
def read : Traced (Flaky σ) ι ε σ := call fun w => (.ok w.store, w)

/-- A computation that does not touch the store. -/
def attempt (x : Except ε α) : Traced (Flaky σ) ι ε α := call fun w => (x, w)

/-- A write that the environment takes, or refuses with `refused`. -/
def write (refused : ε) (f : σ → σ) : Traced (Flaky σ) ι ε Unit :=
  call fun w =>
    if w.takes 0 then (.ok (), ⟨f w.store, fun n => w.takes (n + 1)⟩)
    else (.error refused, ⟨w.store, fun n => w.takes (n + 1)⟩)

/-- The assertion of a triple that the way of the return selects. -/
def After (Q : α → σ → Prop) (E : σ → Prop) : Except ε α → σ → Prop
  | .ok a => Q a
  | .error _ => E

/-- From a store with `P`, a run that returns `a` leaves one with `Q a`, and one that throws leaves one
with `E`. -/
def Triple (P : σ → Prop) (p : Traced (Flaky σ) ι ε α) (Q : α → σ → Prop) (E : σ → Prop) : Prop :=
  ∀ w r w' n, p.run w = (r, w', n) → P w.store → After Q E r w'.store

/-! ### Rules -/

variable {P : σ → Prop} {p : Traced (Flaky σ) ι ε α} {Q : α → σ → Prop} {E : σ → Prop}

theorem Triple.returns (h : Triple P p Q E) {w w' : Flaky σ} {a : α} {n : List ι}
    (hrun : p.run w = (.ok a, w', n)) (hw : P w.store) : Q a w'.store :=
  h w (.ok a) w' n hrun hw

theorem Triple.throws (h : Triple P p Q E) {w w' : Flaky σ} {e : ε} {n : List ι}
    (hrun : p.run w = (.error e, w', n)) (hw : P w.store) : E w'.store :=
  h w (.error e) w' n hrun hw

/-- The rule of consequence. -/
theorem Triple.mono {P' : σ → Prop} {Q' : α → σ → Prop} {E' : σ → Prop} (h : Triple P p Q E)
    (hP : ∀ s, P' s → P s) (hQ : ∀ a s, Q a s → Q' a s) (hE : ∀ s, E s → E' s) :
    Triple P' p Q' E' := by
  intro w r w' n hrun hw
  have hafter := h w r w' n hrun (hP _ hw)
  rcases r with e | a
  · exact hE _ hafter
  · exact hQ a _ hafter

theorem Triple.pre {P' : σ → Prop} (h : Triple P p Q E) (hP : ∀ s, P' s → P s) : Triple P' p Q E :=
  h.mono hP (fun _ _ hQ => hQ) fun _ hE => hE

theorem Triple.post {Q' : α → σ → Prop} (h : Triple P p Q E) (hQ : ∀ a s, Q a s → Q' a s) :
    Triple P p Q' E :=
  h.mono (fun _ hP => hP) hQ fun _ hE => hE

theorem triple_pure {a : α} (h : ∀ s, P s → Q a s) :
    Triple P (pure a : Traced (Flaky σ) ι ε α) Q E := by
  intro w r w' n hrun hw
  obtain ⟨rfl, rfl, -⟩ := pure_run_eq hrun
  exact h _ hw

theorem triple_throw {e : ε} (h : ∀ s, P s → E s) :
    Triple P (throw e : Traced (Flaky σ) ι ε α) Q E := by
  intro w r w' n hrun hw
  obtain ⟨rfl, rfl, -⟩ := throw_run_eq hrun
  exact h _ hw

theorem triple_attempt {x : Except ε α} (hok : ∀ s a, P s → x = .ok a → Q a s) (hE : ∀ s, P s → E s) :
    Triple P (attempt x : Traced (Flaky σ) ι ε α) Q E := by
  intro w r w' n hrun hw
  obtain ⟨hcall, -⟩ := call_run_eq hrun
  obtain ⟨rfl, rfl⟩ := Prod.mk.inj hcall
  rcases x with e | a
  · exact hE _ hw
  · exact hok _ a hw rfl

/-- A write was taken or refused. -/
theorem triple_write {refused : ε} {f : σ → σ} {Q : Unit → σ → Prop} (hQ : ∀ s, P s → Q () (f s))
    (hE : ∀ s, P s → E s) : Triple P (write refused f : Traced (Flaky σ) ι ε Unit) Q E := by
  intro w r w' n hrun hw
  obtain ⟨hcall, -⟩ := call_run_eq hrun
  by_cases htaken : w.takes 0 = true
  · rw [if_pos htaken] at hcall
    obtain ⟨rfl, rfl⟩ := Prod.mk.inj hcall
    exact hQ _ hw
  · rw [if_neg htaken] at hcall
    obtain ⟨rfl, rfl⟩ := Prod.mk.inj hcall
    exact hE _ hw

/-- The second part runs from what the first part leaves behind. -/
theorem Triple.bind {f : α → Traced (Flaky σ) ι ε β} {S : β → σ → Prop} (hp : Triple P p Q E)
    (hf : ∀ a, Triple (Q a) (f a) S E) : Triple P (p >>= f) S E := by
  intro w r w' n hrun hw
  rcases bind_run_eq hrun with ⟨e, hp', rfl⟩ | ⟨a, w₁, n₁, n₂, hp', hf', -⟩
  · exact hp.throws hp' hw
  · exact hf a w₁ r w' n₂ hf' (hp.returns hp' hw)

/-- What is read is known of the store that the rest runs from. -/
theorem triple_read_bind {f : σ → Traced (Flaky σ) ι ε β} {S : β → σ → Prop}
    (hf : ∀ s, P s → Triple (fun s' => s' = s) (f s) S E) :
    Triple P ((read : Traced (Flaky σ) ι ε σ) >>= f) S E := by
  intro w r w' n hrun hw
  rcases bind_run_eq hrun with ⟨e, hread, -⟩ | ⟨s, w₁, n₁, n₂, hread, hf', -⟩
  · exact absurd (congrArg Prod.fst (call_run_eq hread).1) (by simp)
  · obtain ⟨hs, rfl⟩ := Prod.mk.inj (call_run_eq hread).1
    obtain rfl := Except.ok.inj hs
    exact hf _ hw _ r w' n₂ hf' rfl

/-- It is enough to look at each store apart. -/
theorem triple_of_store (h : ∀ s, P s → Triple (fun s' => s' = s) p Q E) : Triple P p Q E :=
  fun w r w' n hrun hw => h w.store hw w r w' n hrun rfl

/-- A loop over a list keeps an assertion about what is still to come. -/
theorem triple_forM {γ : Type} {f : γ → Traced (Flaky σ) ι ε Unit} {I : List γ → σ → Prop}
    (hstep : ∀ c rest, Triple (I (c :: rest)) (f c) (fun _ => I rest) E) (l : List γ) :
    Triple (I l) (l.forM f) (fun _ => I []) E := by
  induction l with
  | nil => exact triple_pure fun s hs => hs
  | cons c rest ih => exact (hstep c rest).bind fun _ => ih

/-- A loop of writes leaves, where all are taken, what folding them makes of the store. -/
theorem triple_forM_write {γ : Type} {refused : ε} {g : σ → γ → σ} (l : List γ) (s₀ : σ) :
    Triple (fun s => s = s₀) (l.forM fun c => (write refused (g · c) : Traced (Flaky σ) ι ε Unit))
      (fun _ s => s = l.foldl g s₀) fun _ => True := by
  -- The invariant: the writes to come lead from here to where all of them lead from `s₀`.
  have hloop := triple_forM (I := fun rest s => rest.foldl g s = l.foldl g s₀) (E := fun _ => True)
    (f := fun c => (write refused (g · c) : Traced (Flaky σ) ι ε Unit))
    (fun c rest => triple_write (fun s hs => hs) fun _ _ => trivial) l
  exact hloop.mono (fun s hs => hs ▸ rfl) (fun _ s hs => hs) fun _ _ => trivial

end Traced
