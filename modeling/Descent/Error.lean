/-!
# Grammar errors

Defects of a grammar that a run has come upon. They are no property of the input, so nothing that
recovers from a failure recovers from them.
-/

namespace Descent

/-- What is wrong with a grammar. -/
inductive GrammarError where
  /-- A rule was used that its grammar does not bind. -/
  | unboundRule (name : String)
  /-- A rule was used whose grammar is gone. -/
  | droppedGrammar (name : String)
  | noSuchElement (index length : Nat)
deriving DecidableEq

def GrammarError.message : GrammarError → String
  | unboundRule name => "no parser registered for rule `" ++ name ++ "`"
  | droppedGrammar name => "rule `" ++ name ++ "` was referenced after its grammar was dropped"
  | noSuchElement index length =>
    "cannot select element " ++ toString index ++ " of a sequence of " ++ toString length

end Descent
