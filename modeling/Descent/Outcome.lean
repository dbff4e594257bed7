/-!
# Outcomes

What a parser makes of a cursor when nothing is wrong with the grammar: a value and the cursor it
leaves, or no match.
-/

namespace Descent

/-- A match with its value and the rest of the input, or no match. -/
inductive Outcome (γ α : Type) where
  | success (value : α) (rest : γ)
  | failure

namespace Outcome

variable {γ α β : Type}

def map (f : α → β) : Outcome γ α → Outcome γ β
  | success value rest => success (f value) rest
  | failure => failure

def value? : Outcome γ α → Option α
  | success value _ => some value
  | failure => none

def rest? : Outcome γ α → Option γ
  | success _ rest => some rest
  | failure => none

@[simp] theorem map_success (f : α → β) (value : α) (rest : γ) :
    (success value rest).map f = success (f value) rest := rfl

@[simp] theorem map_failure (f : α → β) : (failure : Outcome γ α).map f = failure := rfl

end Outcome

end Descent
