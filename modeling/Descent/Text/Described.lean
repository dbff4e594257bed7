import Descent.Text.Quoted

/-!
# Descriptions

The text by which a symbol, a leaf parser or a parser is shown. Numbers are written in decimal,
characters and strings in quotes.
-/

namespace Descent

/-- Values that have a text to be shown by. -/
class Described (α : Type) where
  describe : α → String

export Described (describe)

instance : Described UInt8 where
  describe n := toString n.toNat

instance : Described Int64 where
  describe n := toString n.toInt

instance : Described Char where
  describe := Text.quotedChar

instance : Described String where
  describe := Text.quotedString

instance : Described Empty where
  describe := nofun

end Descent
