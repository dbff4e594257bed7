import Descent.Text.DefaultIgnorable
import Descent.Text.GraphemeExtend
import Descent.Text.Unprintable

/-!
# Quoted characters and strings

Quoted text shows what could be mistaken for something else as an escape: the usual controls by a
letter, the backslash and the quote in use by themselves, and whatever joins its neighbour or
cannot be seen by its code point.
-/

namespace Descent.Text

/-- The voiced and the semi-voiced sound mark of halfwidth katakana, the only letters among the
characters that extend a grapheme. They stand in a cell of their own. -/
def isHalfwidthSoundMark (c : Char) : Bool := c == '\uff9e' || c == '\uff9f'

/-- The character cannot be shown on its own. -/
def isHidden (c : Char) : Bool :=
  (isGraphemeExtend c && !isHalfwidthSoundMark c) || isUnprintable c || isDefaultIgnorable c

/-- The escape `\u{…}` with the code point in hexadecimal, without leading zeros. -/
def codePointEscape (c : Char) : List Char :=
  ['\\', 'u', '{'] ++ Nat.toDigits 16 c.toNat ++ ['}']

/-- The form of a character between two of the quotes. -/
def escape (quote c : Char) : List Char :=
  if c = '\x00' then ['\\', '0']
  else if c = '\t' then ['\\', 't']
  else if c = '\n' then ['\\', 'n']
  else if c = '\r' then ['\\', 'r']
  else if c = '\\' ∨ c = quote then ['\\', c]
  else if isHidden c then codePointEscape c
  else [c]

def quoted (quote : Char) (cs : List Char) : String :=
  String.ofList (quote :: cs.flatMap (escape quote) ++ [quote])

def quotedChar (c : Char) : String := quoted '\'' [c]

def quotedString (s : String) : String := quoted '"' s.toList

end Descent.Text
