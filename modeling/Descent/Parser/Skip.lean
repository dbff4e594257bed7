import Descent.Grammar.Parsing

/-!
# Skipping

A leaf parser that moves ahead a fixed number of symbols without looking at them.
-/

namespace Descent

/-- Matches always, after a number of steps that may lead past the end of the input. -/
structure Skip (σ δ : Type) where
  count : Nat
  value : Value σ δ

variable {γ σ δ : Type}

instance : Described (Skip σ δ) where
  describe s := Parser.bracketed "Skip" [toString s.count]

instance [Cursor γ σ] : LeafParser (Skip σ δ) γ (Value σ δ) where
  recognizer s c := Recognizer.succeed s.value (Cursor.advanceBy s.count c)

end Descent
