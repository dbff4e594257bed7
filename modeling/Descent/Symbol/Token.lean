import Descent.Text.Described

/-!
# Tokens

A token pairs a kind with the text it was read from. Tokens compare by kind alone, and the kind
`nan` is equal to nothing, so equality of tokens is not reflexive.
-/

namespace Descent

/-- A classified piece of text. -/
structure Token where
  kind : String
  text : String

namespace Token

instance : BEq Token where
  beq t u := t.kind == u.kind && t.kind != "nan"

instance : Described Token where
  describe t := t.kind ++ "(" ++ t.text ++ ")"

theorem beq_iff (t u : Token) : (t == u) = true ↔ t.kind = u.kind ∧ t.kind ≠ "nan" := by
  simp [BEq.beq]

end Token

end Descent
