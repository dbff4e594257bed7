import Descent.Parser
import Descent.Value.Action

/-!
# Parsers that skip blanks

Tokens of text with any number of blanks, tabs and line feeds before them.
-/

namespace Descent.Parser

variable {δ ξ : Type}

def blanks : List Char := [' ', '\t', '\n']

def space : Parser Char δ ξ := action (many (oneOf blanks) 0) fun _ => .unit

/-- One of the characters, after any number of blanks. -/
def tokenIn (characters : List Char) : Parser Char δ ξ :=
  action (pair space (oneOf characters)) Value.second

def token (character : Char) : Parser Char δ ξ := tokenIn [character]

end Descent.Parser
