import Descent.Parser

/-!
# Building sequences and choices step by step

A sequence or a choice under construction is a list of parsers that is never empty and grows at its
end. Growing makes a longer one and leaves the shorter one as it was.
-/

namespace Descent

variable {σ δ ξ : Type}

/-- A flat sequence under construction. -/
structure Sequence (σ δ : Type) (ξ : Type := Empty) where
  parsers : List (Parser σ δ ξ)

/-- A flat choice under construction. -/
structure Choice (σ δ : Type) (ξ : Type := Empty) where
  alternatives : List (Parser σ δ ξ)

namespace Sequence

def of (first : Parser σ δ ξ) : Sequence σ δ ξ := ⟨[first]⟩

def push (s : Sequence σ δ ξ) (next : Parser σ δ ξ) : Sequence σ δ ξ := ⟨s.parsers ++ [next]⟩

def length (s : Sequence σ δ ξ) : Nat := s.parsers.length

def isEmpty (s : Sequence σ δ ξ) : Bool := s.parsers.isEmpty

def toParser (s : Sequence σ δ ξ) : Parser σ δ ξ := .sequence s.parsers

/-- The sequence as a parser for the value of one of its elements. -/
def select (s : Sequence σ δ ξ) (index : Nat) : Parser σ δ ξ := .select s.parsers index

@[simp] theorem length_of (p : Parser σ δ ξ) : (of p).length = 1 := rfl

@[simp] theorem length_push (s : Sequence σ δ ξ) (p : Parser σ δ ξ) :
    (s.push p).length = s.length + 1 := by
  simp [push, length]

end Sequence

namespace Choice

def of (first : Parser σ δ ξ) : Choice σ δ ξ := ⟨[first]⟩

/-- The choice with one more alternative, tried last. -/
def push (c : Choice σ δ ξ) (alternative : Parser σ δ ξ) : Choice σ δ ξ :=
  ⟨c.alternatives ++ [alternative]⟩

def length (c : Choice σ δ ξ) : Nat := c.alternatives.length

def isEmpty (c : Choice σ δ ξ) : Bool := c.alternatives.isEmpty

def toParser (c : Choice σ δ ξ) : Parser σ δ ξ := .choice c.alternatives

@[simp] theorem length_of (p : Parser σ δ ξ) : (of p).length = 1 := rfl

@[simp] theorem length_push (c : Choice σ δ ξ) (p : Parser σ δ ξ) :
    (c.push p).length = c.length + 1 := by
  simp [push, length]

end Choice

end Descent
