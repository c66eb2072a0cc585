import Mathlib.Data.List.Basic

/-!
# Programs that leave a trace

A `Program` runs over a world, may throw, and leaves the list of events that happened on the way, also
where it throws. What it asks of its environment is a `call`, an arbitrary function of the world, so a
statement about all worlds and calls is one about every behaviour of the environment. `Emits` says that
every event of a program, on every run, satisfies a property; it is closed under the operations.
-/

/-- A computation over a world `σ` that emits events `ι` and may throw `ε`. -/
structure Traced (σ ι ε α : Type) where
  run : σ → Except ε α × σ × List ι

namespace Traced

variable {σ ι ε ε' α β : Type}

/-- The program that goes on with `f` where `p` returns, with the events of both in order. -/
def andThen (p : Traced σ ι ε α) (f : α → Traced σ ι ε β) : Traced σ ι ε β where
  run w :=
    match p.run w with
    | (.ok a, w₁, n) =>
      let next := (f a).run w₁
      (next.1, next.2.1, n ++ next.2.2)
    | (.error e, w₁, n) => (.error e, w₁, n)

/-- The program that goes on with `f` where `p` throws. -/
def orElse (p : Traced σ ι ε α) (f : ε → Traced σ ι ε α) : Traced σ ι ε α where
  run w :=
    match p.run w with
    | (.ok a, w₁, n) => (.ok a, w₁, n)
    | (.error e, w₁, n) =>
      let next := (f e).run w₁
      (next.1, next.2.1, n ++ next.2.2)

instance : Monad (Traced σ ι ε) where
  pure a := ⟨fun w => (.ok a, w, [])⟩
  bind := andThen

instance : MonadExceptOf ε (Traced σ ι ε) where
  throw e := ⟨fun w => (.error e, w, [])⟩
  tryCatch := orElse

/-- One event. -/
def emit (e : ι) : Traced σ ι ε Unit := ⟨fun w => (.ok (), w, [e])⟩

/-- One question to the environment. -/
def call (oracle : σ → Except ε α × σ) : Traced σ ι ε α :=
  ⟨fun w => ((oracle w).1, (oracle w).2, [])⟩

/-- One question whose outcome is an event: `did` of the answer, or `threw`. -/
def record (oracle : σ → Except ε α × σ) (did : α → ι) (threw : ι) : Traced σ ι ε α where
  run w :=
    match oracle w with
    | (.ok a, w₁) => (.ok a, w₁, [did a])
    | (.error e, w₁) => (.error e, w₁, [threw])

/-! ### Runs of a composition -/

variable {w w' : σ} {n : List ι}

variable {r : Except ε α}

theorem pure_run_eq {a : α} (h : (pure a : Traced σ ι ε α).run w = (r, w', n)) :
    r = .ok a ∧ w' = w ∧ n = [] := by
  cases h
  exact ⟨rfl, rfl, rfl⟩

theorem throw_run_eq {e : ε} (h : (throw e : Traced σ ι ε α).run w = (r, w', n)) :
    r = .error e ∧ w' = w ∧ n = [] := by
  cases h
  exact ⟨rfl, rfl, rfl⟩

theorem emit_run_eq {e : ι} {r : Except ε Unit} (h : (emit e : Traced σ ι ε Unit).run w = (r, w', n)) :
    r = .ok () ∧ w' = w ∧ n = [e] := by
  cases h
  exact ⟨rfl, rfl, rfl⟩

variable {oracle : σ → Except ε α × σ}

theorem call_run_eq (h : (call oracle : Traced σ ι ε α).run w = (r, w', n)) :
    oracle w = (r, w') ∧ n = [] := by
  cases h
  exact ⟨rfl, rfl⟩

/-- **A composition ran.** Its first part threw, or it returned and the second part ran on. -/
theorem bind_run_eq {p : Traced σ ι ε α} {f : α → Traced σ ι ε β} {r : Except ε β}
    (h : (p >>= f).run w = (r, w', n)) :
    (∃ e, p.run w = (.error e, w', n) ∧ r = .error e) ∨
      ∃ a w₁ n₁ n₂, p.run w = (.ok a, w₁, n₁) ∧ (f a).run w₁ = (r, w', n₂) ∧ n = n₁ ++ n₂ := by
  change (andThen p f).run w = (r, w', n) at h
  simp only [andThen] at h
  split at h
  · next a w₁ n₁ hp =>
    cases h
    exact .inr ⟨a, w₁, n₁, _, hp, rfl, rfl⟩
  · next e w₁ n₁ hp =>
    cases h
    exact .inl ⟨e, hp, rfl⟩

theorem tryCatch_run_eq {p : Traced σ ι ε α} {f : ε → Traced σ ι ε α}
    (h : (tryCatch p f).run w = (r, w', n)) :
    (∃ a, p.run w = (.ok a, w', n) ∧ r = .ok a) ∨
      ∃ e w₁ n₁ n₂, p.run w = (.error e, w₁, n₁) ∧ (f e).run w₁ = (r, w', n₂) ∧ n = n₁ ++ n₂ := by
  change (orElse p f).run w = (r, w', n) at h
  simp only [orElse] at h
  split at h
  · next a w₁ n₁ hp =>
    cases h
    exact .inl ⟨a, hp, rfl⟩
  · next e w₁ n₁ hp =>
    cases h
    exact .inr ⟨e, w₁, n₁, _, hp, rfl, rfl⟩

theorem record_run_eq {did : α → ι} {threw : ι} (h : (record oracle did threw).run w = (r, w', n)) :
    (∃ e, oracle w = (.error e, w') ∧ r = .error e ∧ n = [threw]) ∨
      ∃ a, oracle w = (.ok a, w') ∧ r = .ok a ∧ n = [did a] := by
  simp only [record] at h
  split at h
  · next a w₁ ho =>
    cases h
    exact .inr ⟨a, ho, rfl, rfl⟩
  · next e w₁ ho =>
    cases h
    exact .inl ⟨e, ho, rfl, rfl⟩

/-! ### What a program emits -/

/-- Every event of every run satisfies `P`. -/
def Emits (p : Traced σ ι ε α) (P : ι → Prop) : Prop :=
  ∀ w r w' n, p.run w = (r, w', n) → ∀ e ∈ n, P e

variable {P Q : ι → Prop} {p : Traced σ ι ε α} {f : α → Traced σ ι ε β}

theorem emits_pure (a : α) : Emits (pure a : Traced σ ι ε α) P := by
  intro w r w' n hrun
  rw [(pure_run_eq hrun).2.2]
  exact nofun

theorem emits_throw (e : ε) : Emits (throw e : Traced σ ι ε α) P := by
  intro w r w' n hrun
  rw [(throw_run_eq hrun).2.2]
  exact nofun

theorem emits_call (oracle : σ → Except ε α × σ) : Emits (call oracle : Traced σ ι ε α) P := by
  intro w r w' n hrun
  rw [(call_run_eq hrun).2]
  exact nofun

theorem emits_emit {e : ι} (h : P e) : Emits (emit e : Traced σ ι ε Unit) P := by
  intro w r w' n hrun e' he
  rw [(emit_run_eq hrun).2.2, List.mem_singleton] at he
  exact he ▸ h

theorem emits_record {did : α → ι} {threw : ι} (hdid : ∀ a, P (did a)) (hthrew : P threw) :
    Emits (record oracle did threw) P := by
  intro w r w' n hrun e he
  rcases record_run_eq hrun with ⟨_, -, -, rfl⟩ | ⟨a, -, -, rfl⟩
  · exact List.mem_singleton.mp he ▸ hthrew
  · exact List.mem_singleton.mp he ▸ hdid a

theorem Emits.bind (hp : Emits p P) (hf : ∀ a, Emits (f a) P) : Emits (p >>= f) P := by
  intro w r w' n hrun e he
  rcases bind_run_eq hrun with ⟨_, hp', -⟩ | ⟨a, w₁, n₁, n₂, hp', hf', rfl⟩
  · exact hp _ _ _ _ hp' e he
  · rcases List.mem_append.mp he with he | he
    · exact hp _ _ _ _ hp' e he
    · exact hf a _ _ _ _ hf' e he

theorem Emits.tryCatch {g : ε → Traced σ ι ε α} (hp : Emits p P) (hg : ∀ e, Emits (g e) P) :
    Emits (tryCatch p g) P := by
  intro w r w' n hrun e he
  rcases tryCatch_run_eq hrun with ⟨_, hp', -⟩ | ⟨e', w₁, n₁, n₂, hp', hg', rfl⟩
  · exact hp _ _ _ _ hp' e he
  · rcases List.mem_append.mp he with he | he
    · exact hp _ _ _ _ hp' e he
    · exact hg e' _ _ _ _ hg' e he

theorem Emits.ite {c : Prop} [Decidable c] {q : Traced σ ι ε α} (hp : c → Emits p P)
    (hq : ¬c → Emits q P) : Emits (if c then p else q) P := by
  split
  · exact hp ‹_›
  · exact hq ‹_›

theorem Emits.map (hp : Emits p P) (g : α → β) : Emits (g <$> p) P :=
  hp.bind fun a => emits_pure (g a)

/-! ### What holds where a program returns -/

/-- Every run that returns has `Q` of what it returned and what it emitted. -/
def Ensures (p : Traced σ ι ε α) (Q : α → List ι → Prop) : Prop :=
  ∀ w a w' n, p.run w = (.ok a, w', n) → Q a n

variable {R : α → List ι → Prop} {S : β → List ι → Prop}

theorem Ensures.mono {R' : α → List ι → Prop} (h : Ensures p R) (hR : ∀ a n, R a n → R' a n) :
    Ensures p R' :=
  fun w a w' n hrun => hR a n (h w a w' n hrun)

theorem ensures_pure {a : α} (h : R a []) : Ensures (pure a : Traced σ ι ε α) R := by
  intro w a' w' n hrun
  obtain ⟨ha, -, rfl⟩ := pure_run_eq hrun
  cases ha
  exact h

theorem ensures_throw (e : ε) : Ensures (throw e : Traced σ ι ε α) R := by
  intro w a w' n hrun
  cases (throw_run_eq hrun).1

theorem ensures_call :
    Ensures (call oracle : Traced σ ι ε α) fun _ n => n = [] :=
  fun _ _ _ _ hrun => (call_run_eq hrun).2

theorem ensures_emit {e : ι} : Ensures (emit e : Traced σ ι ε Unit) fun _ n => n = [e] :=
  fun _ _ _ _ hrun => (emit_run_eq hrun).2.2

theorem ensures_record {did : α → ι} {threw : ι} :
    Ensures (record oracle did threw) fun a n => n = [did a] := by
  intro w a w' n hrun
  rcases record_run_eq hrun with ⟨_, -, hr, -⟩ | ⟨a', -, hr, rfl⟩
  · cases hr
  · cases hr
    rfl

/-- The second part runs after what the first part ensures. -/
theorem Ensures.bind (hp : Ensures p R) (hf : ∀ a n₁, R a n₁ → Ensures (f a) fun b n₂ => S b (n₁ ++ n₂)) :
    Ensures (p >>= f) S := by
  intro w b w' n hrun
  rcases bind_run_eq hrun with ⟨_, -, hr⟩ | ⟨a, w₁, n₁, n₂, hp', hf', rfl⟩
  · cases hr
  · exact hf a n₁ (hp _ _ _ _ hp') _ _ _ _ hf'

theorem Emits.ensures (h : Emits p P) : Ensures p fun _ n => ∀ e ∈ n, P e :=
  fun w _ w' n hrun => h w _ w' n hrun

/-- A fact about what the second part returns needs nothing of the first. -/
theorem ensures_bind_of_returned {T : β → Prop} (hf : ∀ a, Ensures (f a) fun b _ => T b) :
    Ensures (p >>= f) fun b _ => T b := by
  intro w b w' n hrun
  rcases bind_run_eq hrun with ⟨_, -, hr⟩ | ⟨a, w₁, n₁, n₂, -, hf', -⟩
  · cases hr
  · exact hf a _ _ _ _ hf'

/-- Facts about each event add up. -/
theorem Ensures.bind_events (hp : Ensures p fun _ n => ∀ e ∈ n, P e)
    (hf : ∀ a, Ensures (f a) fun b n => (∀ e ∈ n, P e) ∧ S b n)
    (hS : ∀ b n₁ n₂, S b n₂ → S b (n₁ ++ n₂)) :
    Ensures (p >>= f) fun b n => (∀ e ∈ n, P e) ∧ S b n := by
  refine hp.bind fun a n₁ h₁ => (hf a).mono fun b n₂ h₂ => ⟨fun e he => ?_, hS b n₁ n₂ h₂.2⟩
  rcases List.mem_append.mp he with he | he
  · exact h₁ e he
  · exact h₂.1 e he

theorem Ensures.ite {c : Prop} [Decidable c] {q : Traced σ ι ε α} (hp : c → Ensures p R)
    (hq : ¬c → Ensures q R) : Ensures (if c then p else q) R := by
  split
  · exact hp ‹_›
  · exact hq ‹_›

end Traced
