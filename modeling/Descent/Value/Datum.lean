import Descent.Symbol.Token
import Descent.Value

/-!
# Computed data and the text of a value

Data are words of 64 bits with a sign, or text. The text of a value is the concatenation of the
texts of its leaves, and keeps nothing of its shape.
-/

namespace Descent

/-- What an action can compute from a value. -/
inductive Datum where
  /-- A number, with arithmetic that wraps. -/
  | int (n : Int64)
  | text (s : String)

/-- Symbols that stand for a piece of text. -/
class Lexeme (σ : Type) where
  text : σ → String
  /-- The code point of a symbol that is a single character. -/
  codePoint? : σ → Option Nat

instance : Lexeme Char where
  text := String.singleton
  codePoint? c := some c.toNat

instance : Lexeme String where
  text s := s
  codePoint? _ := none

instance : Lexeme UInt8 where
  text := describe
  codePoint? _ := none

instance : Lexeme Int64 where
  text := describe
  codePoint? _ := none

instance : Lexeme Token where
  text := Token.text
  codePoint? _ := none

variable {σ : Type} [Lexeme σ]

/-- The text of a leaf, in decimal when it is a number. -/
def Leaf.text : Leaf σ Datum → String
  | symbol s => Lexeme.text s
  | datum (.int n) => describe n
  | datum (.text s) => s

def Value.text (value : Value σ Datum) : String := String.join (value.leaves.map Leaf.text)

end Descent
