/-!
# Events

What grammars and parsers report of their work while they do it.
-/

namespace Descent

/-- A step worth a line in a log. -/
inductive Event where
  | registering (rule description : String)
  /-- The binding just made replaced an earlier one. -/
  | rebound
  /-- A rule is about to be looked up and run at a position. -/
  | parsing (rule : String) (position : Nat)
  /-- A reference found its rule, which is about to run at a position. -/
  | resolved (rule : String) (position : Nat)
  /-- A repetition ended on a match that left the position where it was. -/
  | stalled (position repetitions : Nat)
deriving DecidableEq

namespace Event

/-- How much detail a log must show to show an event. -/
inductive Level where
  | debug
  | trace
deriving DecidableEq

inductive Field where
  | text (value : String)
  | count (value : Nat)
deriving DecidableEq

/-- Resolving a reference is the only step that is shown at the finest level alone. -/
def level : Event → Level
  | resolved .. => .trace
  | _ => .debug

def message : Event → String
  | registering .. => "registering rule"
  | rebound => "rule rebound, previous binding replaced"
  | parsing .. => "parsing"
  | resolved .. => "resolved rule"
  | stalled .. => "repetition matched without consuming input, stopping"

def fields : Event → List (String × Field)
  | registering rule description => [("rule", .text rule), ("parser", .text description)]
  | rebound => []
  | parsing rule position => [("rule", .text rule), ("position", .count position)]
  | resolved rule position => [("rule", .text rule), ("position", .count position)]
  | stalled position repetitions =>
    [("position", .count position), ("repetitions", .count repetitions)]

end Event

end Descent
