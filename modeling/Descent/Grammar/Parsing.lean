import Descent.Grammar
import Descent.Recognizer

/-!
# Running parsers

The meaning of a parser over a registry is a recognizer of values. A reference is resolved at the
moment it runs, so the meaning follows later registrations. Since rules can refer to one another
without end, the recognizer has a budget that bounds both how deeply parsers are nested and how
often one repeats; `Parser.parse` sets a budget from the grammar and the input.
-/

namespace Descent

/-- Leaf parsers that can be run on cursors `γ`. -/
class LeafParser (ξ γ α : Type) where
  recognizer : ξ → Recognizer γ α

instance {γ α : Type} : LeafParser Empty γ α where
  recognizer := nofun

namespace Parser

variable {γ σ δ ξ : Type} [Cursor γ σ] [BEq σ] [LeafParser ξ γ (Value σ δ)]

/-- The meaning of a parser, made from the meanings of the parsers that it runs next and a bound on
the rounds of a repetition. -/
@[inline] def step (r : Registry σ δ ξ) (rounds : Nat)
    (run : Parser σ δ ξ → Recognizer γ (Value σ δ)) (p : Parser σ δ ξ) :
    Recognizer γ (Value σ δ) := fun c =>
  match p with
  | oneOf symbols => Recognizer.action (Recognizer.oneOf symbols) Value.symbol c
  | anySymbol => Recognizer.action Recognizer.anySymbol Value.symbol c
  | endOfInput value => Recognizer.endOfInput value c
  | sequence ps => Recognizer.action (Recognizer.sequence (ps.map run)) Value.list c
  | select ps index => Recognizer.select (ps.map run) index c
  | pair p q =>
    Recognizer.action (Recognizer.pair (run p) (run q)) (fun v => Value.pair v.1 v.2) c
  | choice ps => Recognizer.choice (ps.map run) c
  | optional p => Recognizer.action (Recognizer.optional (run p)) Value.ofOption c
  | optionalOr p sentinel => Recognizer.optionalOr (run p) sentinel c
  | many p min => Recognizer.action (Recognizer.many rounds (run p) min) Value.list c
  | action p f => Recognizer.action (run p) f c
  | reference g name => do
    let body ← Run.ofExcept (r.resolve g name)
    Run.note (.resolved name (Cursor.position c))
    run body c
  | leaf x => LeafParser.recognizer x c

/-- The meaning of a parser whose references are looked up in a registry. -/
def recognizer (r : Registry σ δ ξ) : Nat → Parser σ δ ξ → Recognizer γ (Value σ δ)
  | 0, _ => fun _ => .unfinished
  | budget + 1, p => fun c => step r budget (recognizer r budget) p c

/-- A budget for a parser, a registry and an input. With leaf parsers that only move ahead, a run
that nests deeper comes back to the same parser at the same place, and would never end. -/
def budget (r : Registry σ δ ξ) (p : Parser σ δ ξ) (c : γ) : Nat :=
  ((Cursor.remaining c).length + 2) * (p.height + r.totalHeight + 1) + 1

def parse (r : Registry σ δ ξ) (p : Parser σ δ ξ) (c : γ) : Run (Outcome γ (Value σ δ)) :=
  recognizer r (budget r p c) p c

end Parser

namespace Registry

variable {γ σ δ ξ : Type} [Cursor γ σ] [BEq σ] [LeafParser ξ γ (Value σ δ)]

/-- Runs the parser bound to a name. The event comes before the name is looked up. -/
def parse (r : Registry σ δ ξ) (g : GrammarId) (name : String) (c : γ) :
    Run (Outcome γ (Value σ δ)) := do
  Run.note (.parsing name (Cursor.position c))
  let body ← Run.ofExcept (r.resolve g name)
  body.parse r c

end Registry

end Descent
