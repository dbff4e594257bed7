import Descent.Text.Described
import Descent.Value

/-!
# Parsers

A parser is a term: it can be described, stored in a rule table, shared between cursors of several
kinds, and run. Its leaves are the parsers of this library and a type `ξ` of leaf parsers that an
application brings along; the library's own parsers have none of the latter.
-/

namespace Descent

/-- The identity of a grammar. No two grammars ever have the same. -/
structure GrammarId where
  index : Nat
deriving DecidableEq

/-- Parsers of symbols `σ` with values over data `δ` and further leaf parsers `ξ`. -/
inductive Parser (σ δ : Type) (ξ : Type := Empty) where
  /-- A symbol equal to one of the set. -/
  | oneOf (symbols : List σ)
  | anySymbol
  | endOfInput (value : Value σ δ)
  /-- The parsers in turn, with a list of their values. -/
  | sequence (parsers : List (Parser σ δ ξ))
  /-- The parsers in turn, with the value of the one at an index. -/
  | select (parsers : List (Parser σ δ ξ)) (index : Nat)
  | pair (first second : Parser σ δ ξ)
  | choice (alternatives : List (Parser σ δ ξ))
  | optional (parser : Parser σ δ ξ)
  /-- A match or a value that stands for its absence. -/
  | optionalOr (parser : Parser σ δ ξ) (sentinel : Value σ δ)
  /-- As many matches as there are, at least `min`. -/
  | many (parser : Parser σ δ ξ) (min : Nat)
  | action (parser : Parser σ δ ξ) (f : Value σ δ → Value σ δ)
  /-- Whatever a grammar binds to the name when the reference runs. -/
  | reference (grammar : GrammarId) (name : String)
  | leaf (x : ξ)

namespace Parser

variable {σ δ ξ : Type}

def symbol (s : σ) : Parser σ δ ξ := oneOf [s]

def atLeastOnce (p : Parser σ δ ξ) : Parser σ δ ξ := many p 1

/-- Texts between brackets, after the name of a kind of parser. -/
def bracketed (kind : String) (parts : List String) : String :=
  kind ++ "[" ++ ", ".intercalate parts ++ "]"

section Describe

variable [Described σ] [Described ξ]

mutual

/-- The shape of a parser. References are shown by name and not followed; values and functions are
not shown. -/
def describe : Parser σ δ ξ → String
  | oneOf symbols => bracketed "Set" (symbols.map Described.describe)
  | anySymbol => "Any"
  | endOfInput _ => "End"
  | sequence parsers => bracketed "Sequence" (describeAll parsers)
  | select parsers index =>
    bracketed "Select" [bracketed "Sequence" (describeAll parsers), toString index]
  | pair first second => bracketed "And" [first.describe, second.describe]
  | choice alternatives => bracketed "Choice" (describeAll alternatives)
  | optional parser => bracketed "Opt" [parser.describe]
  | optionalOr parser _ => bracketed "Opt" [parser.describe]
  | many parser min => bracketed "Many" [parser.describe, toString min]
  | action parser _ => bracketed "Action" [parser.describe]
  | reference _ name => bracketed "Ref" [name]
  | leaf x => Described.describe x

def describeAll : List (Parser σ δ ξ) → List String
  | [] => []
  | p :: ps => p.describe :: describeAll ps

end

instance : Described (Parser σ δ ξ) where
  describe := describe

end Describe

mutual

/-- The length of the longest chain of parsers within one another. -/
def height : Parser σ δ ξ → Nat
  | oneOf _ | anySymbol | endOfInput _ | reference .. | leaf _ => 1
  | sequence parsers | select parsers _ | choice parsers => heightOfAll parsers + 1
  | pair first second => max first.height second.height + 1
  | optional parser | optionalOr parser _ | many parser _ | action parser _ => parser.height + 1

def heightOfAll : List (Parser σ δ ξ) → Nat
  | [] => 0
  | p :: ps => max p.height (heightOfAll ps)

end

/-- The parsers directly within a parser, in the order in which they are first run. -/
def parts : Parser σ δ ξ → List (Parser σ δ ξ)
  | oneOf _ | anySymbol | endOfInput _ | reference .. | leaf _ => []
  | sequence parsers | select parsers _ | choice parsers => parsers
  | pair first second => [first, second]
  | optional parser | optionalOr parser _ | many parser _ | action parser _ => [parser]

theorem height_le_heightOfAll {p : Parser σ δ ξ} {ps : List (Parser σ δ ξ)} (h : p ∈ ps) :
    p.height ≤ heightOfAll ps := by
  induction ps with
  | nil => simp at h
  | cons q qs ih =>
    rcases List.mem_cons.1 h with rfl | h
    · exact Nat.le_max_left ..
    · exact Nat.le_trans (ih h) (Nat.le_max_right ..)

theorem height_lt_of_mem_parts {p q : Parser σ δ ξ} (h : q ∈ p.parts) : q.height < p.height := by
  cases p with
  | oneOf | anySymbol | endOfInput | reference | leaf => simp [parts] at h
  | sequence ps | select ps | choice ps =>
    have hle : q.height ≤ heightOfAll ps := height_le_heightOfAll h
    simp only [height]
    omega
  | pair p p' =>
    simp only [parts, List.mem_cons, List.not_mem_nil, or_false] at h
    simp only [height]
    rcases h with rfl | rfl <;> omega
  | optional | optionalOr | many | action =>
    simp only [parts, List.mem_cons, List.not_mem_nil, or_false] at h
    simp only [height, h]
    omega

theorem height_pos (p : Parser σ δ ξ) : 0 < p.height := by
  cases p <;> simp only [height] <;> omega

end Parser

end Descent
