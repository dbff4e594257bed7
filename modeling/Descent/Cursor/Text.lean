import Descent.Cursor

/-!
# Cursors over text

A text cursor walks the characters of a string and counts bytes of its UTF-8 form. Its offset is a
position of that string, so it always lies between two characters.
-/

namespace Descent

structure TextCursor where
  source : String
  /-- The boundary between what is read and what is not. -/
  offset : source.Pos

namespace TextCursor

def ofString (source : String) : TextCursor := ⟨source, source.startPos⟩

def current (c : TextCursor) : Option Char := c.offset.get?

/-- The boundary after the current character; the end of the text stays where it is. -/
def advance (c : TextCursor) : TextCursor :=
  if h : c.offset = c.source.endPos then c else ⟨c.source, c.offset.next h⟩

/-- The number of bytes before the offset. -/
def position (c : TextCursor) : Nat := c.offset.offset.byteIdx

def remainingText (c : TextCursor) : String := (c.source.sliceFrom c.offset).copy

/-- Equal cursors are at the same offset of the same text. -/
instance : BEq TextCursor where
  beq c c' := c.source == c'.source && c.position == c'.position

instance : Cursor TextCursor Char where
  current := current
  advance := advance
  position := position
  remaining c := c.remainingText.toList

theorem splits_remainingText (c : TextCursor) :
    c.offset.Splits (c.source.sliceTo c.offset).copy c.remainingText :=
  c.offset.splits

private theorem advance_of_ne {c : TextCursor} (h : c.offset ≠ c.source.endPos) :
    c.advance = ⟨c.source, c.offset.next h⟩ := dif_neg h

theorem remainingText_eq_append {c : TextCursor} (h : c.offset ≠ c.source.endPos) :
    c.remainingText = String.singleton (c.offset.get h) ++ c.advance.remainingText := by
  obtain ⟨rest, hrest⟩ := c.splits_remainingText.exists_eq_singleton_append h
  have hsplits := c.splits_remainingText
  rw [hrest] at hsplits
  rw [hrest, advance_of_ne h, remainingText, hsplits.next.copy_sliceFrom_eq]

theorem remainingText_eq_empty_iff {c : TextCursor} :
    c.remainingText = "" ↔ c.offset = c.source.endPos :=
  c.splits_remainingText.eq_endPos_iff.symm

instance : LawfulCursor TextCursor where
  current_eq_head? c := by
    by_cases h : c.offset = c.source.endPos
    · simp [Cursor.current, Cursor.remaining, current, remainingText_eq_empty_iff.2 h,
        String.Pos.get?_eq_none h]
    · simp [Cursor.current, Cursor.remaining, current, remainingText_eq_append h,
        String.Pos.get?_eq_some_get h]
  remaining_advance c := by
    by_cases h : c.offset = c.source.endPos
    · simp [Cursor.remaining, Cursor.advance, advance, h, remainingText_eq_empty_iff.2 h]
    · simp [Cursor.remaining, Cursor.advance, remainingText_eq_append h]
  position_lt_advance c h := by
    have hne : c.offset ≠ c.source.endPos := by
      intro he
      exact h (String.Pos.get?_eq_none he)
    change c.position < c.advance.position
    rw [advance_of_ne hne]
    exact c.offset.lt_next (h := hne)

instance : SourcedCursor TextCursor String where
  source := source
  source_advance c := by
    simp only [Cursor.advance, advance]
    split <;> rfl

end TextCursor

end Descent
