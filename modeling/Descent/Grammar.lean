import Descent.Error
import Descent.Event
import Descent.Parser
import Std.Data.TreeMap

/-!
# Grammars

A registry holds the rule tables of any number of grammars. A name in a table is bound to the
parser registered last under it. A dropped grammar leaves its place behind, so that its identity is
never given out again and its references can be told to be stale.
-/

namespace Descent

/-- The parsers that a grammar binds to names, in the order of the names. -/
abbrev RuleTable (σ δ ξ : Type) : Type := Std.TreeMap String (Parser σ δ ξ)

/-- The rule tables of all grammars so far, at the indices of their identities; none for a grammar
that was dropped. -/
structure Registry (σ δ : Type) (ξ : Type := Empty) where
  tables : List (Option (RuleTable σ δ ξ))

structure Registration (σ δ ξ : Type) where
  registry : Registry σ δ ξ
  /-- The parser that the name was bound to before. -/
  previous : Option (Parser σ δ ξ)
  events : List Event

namespace Registry

variable {σ δ ξ : Type}

def empty : Registry σ δ ξ := ⟨[]⟩

/-- The rules of a grammar that is alive. -/
def table? (r : Registry σ δ ξ) (g : GrammarId) : Option (RuleTable σ δ ξ) :=
  r.tables[g.index]?.join

def isLive (r : Registry σ δ ξ) (g : GrammarId) : Bool := (r.table? g).isSome

/-- A new grammar without rules, under an identity of its own. -/
def create (r : Registry σ δ ξ) : GrammarId × Registry σ δ ξ :=
  (⟨r.tables.length⟩, ⟨r.tables ++ [some ∅]⟩)

def drop (r : Registry σ δ ξ) (g : GrammarId) : Registry σ δ ξ := ⟨r.tables.set g.index none⟩

/-- Binds a name in a grammar that is alive. A dropped grammar stays as it is. -/
def bind (r : Registry σ δ ξ) (g : GrammarId) (name : String) (p : Parser σ δ ξ) :
    Registry σ δ ξ :=
  match r.table? g with
  | some table => ⟨r.tables.set g.index (some (table.insert name p))⟩
  | none => r

/-- The parser that a reference to a name runs now. -/
def resolve (r : Registry σ δ ξ) (g : GrammarId) (name : String) :
    Except GrammarError (Parser σ δ ξ) :=
  match r.table? g with
  | none => .error (.droppedGrammar name)
  | some table =>
    match table[name]? with
    | none => .error (.unboundRule name)
    | some p => .ok p

def binding? (r : Registry σ δ ξ) (g : GrammarId) (name : String) : Option (Parser σ δ ξ) :=
  (r.resolve g name).toOption

def isBound (r : Registry σ δ ξ) (g : GrammarId) (name : String) : Bool :=
  (r.binding? g name).isSome

def names (r : Registry σ δ ξ) (g : GrammarId) : List String :=
  match r.table? g with
  | some table => table.keys
  | none => []

section Describe

variable [Described σ] [Described ξ]

/-- Binds a name to a parser in place of whatever it was bound to. -/
def register (r : Registry σ δ ξ) (g : GrammarId) (name : String) (p : Parser σ δ ξ) :
    Registration σ δ ξ where
  registry := r.bind g name p
  previous := r.binding? g name
  events :=
    .registering name p.describe :: if r.isBound g name then [.rebound] else []

def description (r : Registry σ δ ξ) (g : GrammarId) (name : String) :
    Except GrammarError String :=
  (r.resolve g name).map Parser.describe

end Describe

/-- All the parsers bound in grammars that are alive. -/
def bodies (r : Registry σ δ ξ) : List (Parser σ δ ξ) :=
  r.tables.flatMap fun
    | some table => table.toList.map Prod.snd
    | none => []

def totalHeight (r : Registry σ δ ξ) : Nat :=
  r.bodies.foldr (fun body total => body.height + total) 0

end Registry

end Descent
