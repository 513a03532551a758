/-!
# Loops

A loop is a body that, from what it carries, either goes on with something else to carry or ends
with a result. The body works on a state and may fault. A loop is run with a bound on the number of
rounds; when the bound is used up it faults in a way of its own.

The bound is the only thing that is not in the body. Where a loop is shown to end, the bound that is
large enough is given.
-/

namespace Interleave

namespace Loop

variable {ε σ β ρ : Type}

/-- Runs a loop for at most this many rounds. -/
def run (body : β → EStateM ε σ (β ⊕ ρ)) (exhausted : ε) : Nat → β → EStateM ε σ ρ
  | 0, _ => fun s => .error exhausted s
  | n + 1, b => fun s =>
    match body b s with
    | .ok (.inl b') s' => run body exhausted n b' s'
    | .ok (.inr r) s' => .ok r s'
    | .error e s' => .error e s'

/-- One round, and the rest. -/
theorem run_succ (body : β → EStateM ε σ (β ⊕ ρ)) (exhausted : ε) (n : Nat) (b : β) (s : σ) :
    run body exhausted (n + 1) b s =
      match body b s with
      | .ok (.inl b') s' => run body exhausted n b' s'
      | .ok (.inr r) s' => .ok r s'
      | .error e s' => .error e s' :=
  rfl

end Loop

end Interleave
