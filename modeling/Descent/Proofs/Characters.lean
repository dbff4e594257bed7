import Descent.Cursor.Text
import Mathlib.Algebra.GroupWithZero.Nat

/-!
# Walks over characters

The offset of a text cursor counts the bytes of the characters behind it. So a text can be cut at
every offset that a walk comes to, no step leads out of the text, and offsets are in the order of
the numbers of characters behind them.
-/

namespace Descent

open Cursor (Reaches advanceBy)

/-- What is behind so many bytes of a text, none where they end inside a character or where the text
has not so many. -/
def Text.dropBytes? (text : String) (count : Nat) : Option String :=
  if h : (⟨count⟩ : String.Pos.Raw).IsValid text then some (text.sliceFrom ⟨⟨count⟩, h⟩).copy
  else none

namespace TextCursor

theorem isValid_position (c : TextCursor) :
    (⟨Cursor.position c⟩ : String.Pos.Raw).IsValid c.source := c.offset.isValid

theorem dropBytes?_position (c : TextCursor) :
    Text.dropBytes? c.source (Cursor.position c) = some c.remainingText :=
  dif_pos c.isValid_position

theorem position_le (c : TextCursor) : Cursor.position c ≤ c.source.utf8ByteSize :=
  c.isValid_position.le_utf8ByteSize

theorem isExhausted_iff_position (c : TextCursor) :
    Cursor.isExhausted c = true ↔ Cursor.position c = c.source.utf8ByteSize := by
  have hoffset : Cursor.isExhausted c = true ↔ c.offset = c.source.endPos := by
    rw [Cursor.isExhausted_iff, ← remainingText_eq_empty_iff]
    exact String.toList_eq_nil_iff
  rw [hoffset, String.Pos.ext_iff, String.Pos.Raw.ext_iff]
  rfl

/-- A step adds the size of the current character, and nothing at the end. -/
theorem position_advance (c : TextCursor) :
    Cursor.position (Cursor.advance c) =
      Cursor.position c + (Cursor.current c).elim 0 Char.utf8Size := by
  change c.advance.position = c.position + c.current.elim 0 Char.utf8Size
  by_cases h : c.offset = c.source.endPos
  · rw [advance, dif_pos h, current, h, String.Pos.get?_eq_none rfl]
    rfl
  · rw [advance, dif_neg h, current, String.Pos.get?_eq_some_get h]
    exact c.offset.byteIdx_offset_next h

/-- By induction on the steps, one character after another. -/
theorem position_advanceBy (k : Nat) (c : TextCursor) :
    Cursor.position (advanceBy k c) =
      Cursor.position c + (((Cursor.remaining c).take k).map Char.utf8Size).sum := by
  induction k generalizing c with
  | zero => rfl
  | succ k ih =>
    rw [advanceBy, ih, position_advance]
    cases hs : Cursor.current c with
    | none =>
      simp [LawfulCursor.remaining_advance, (Cursor.current_eq_none_iff c).mp hs]
    | some s =>
      rw [Cursor.remaining_eq_cons_of_current hs, List.take_succ_cons, List.map_cons, List.sum_cons,
        Nat.add_assoc]
      rfl

/-- Where `k` steps over a text lead: behind `k` of its characters, or behind all of them when there
are fewer. -/
structure Stands (text : String) (k : Nat) (c : TextCursor) : Prop where
  source_eq : SourcedCursor.source c = text
  position_eq : Cursor.position c = ((text.toList.take k).map Char.utf8Size).sum
  isValid : (⟨Cursor.position c⟩ : String.Pos.Raw).IsValid text
  position_le : Cursor.position c ≤ text.utf8ByteSize
  position_advance_eq : Cursor.position (Cursor.advance c) =
    Cursor.position c + (Cursor.current c).elim 0 Char.utf8Size
  /-- The sum for the next offset fits wherever the size of the text does. -/
  position_add_le :
    Cursor.position c + (Cursor.current c).elim 0 Char.utf8Size ≤ text.utf8ByteSize
  /-- Cutting the text at the offset gives what is ahead. -/
  dropBytes?_eq :
    (Text.dropBytes? text (Cursor.position c)).map String.toList = some (Cursor.remaining c)
  remaining_eq : Cursor.remaining c = text.toList.drop k
  current_eq : Cursor.current c = text.toList[k]?
  isExhausted_iff : Cursor.isExhausted c = true ↔ text.length ≤ k
  isExhausted_iff_position : Cursor.isExhausted c = true ↔ Cursor.position c = text.utf8ByteSize

section Walk

variable (text : String)

theorem remaining_ofString : Cursor.remaining (ofString text) = text.toList := by
  change (text.sliceFrom text.startPos).copy.toList = text.toList
  rw [String.sliceFrom_startPos, String.copy_toSlice]

theorem length_remaining_ofString : (Cursor.remaining (ofString text)).length = text.length := by
  rw [remaining_ofString, String.length_toList]

theorem position_advanceBy_ofString (k : Nat) :
    Cursor.position (advanceBy k (ofString text)) =
      ((text.toList.take k).map Char.utf8Size).sum := by
  rw [position_advanceBy, remaining_ofString]
  exact Nat.zero_add _

theorem stands_advanceBy_ofString (k : Nat) : Stands text k (advanceBy k (ofString text)) := by
  have hsource (k : Nat) : (advanceBy k (ofString text)).source = text :=
    Cursor.source_advanceBy k (ofString text)
  refine ⟨hsource k, position_advanceBy_ofString text k, ?_, ?_, position_advance _, ?_, ?_, ?_, ?_,
    ?_, ?_⟩
  · have hvalid := (advanceBy k (ofString text)).isValid_position
    rwa [hsource] at hvalid
  · have hle := (advanceBy k (ofString text)).position_le
    rwa [hsource] at hle
  · have hle := (advanceBy (k + 1) (ofString text)).position_le
    rwa [hsource, Cursor.advanceBy_succ, position_advance] at hle
  · have hdrop := (advanceBy k (ofString text)).dropBytes?_position
    rw [hsource] at hdrop
    rw [hdrop]
    rfl
  · rw [Cursor.remaining_advanceBy, remaining_ofString]
  · rw [Cursor.current_advanceBy, remaining_ofString]
  · rw [Cursor.isExhausted_advanceBy_iff, length_remaining_ofString]
  · rw [isExhausted_iff_position, hsource]

/-- Steps past the end change nothing. -/
theorem position_advanceBy_min (k : Nat) :
    Cursor.position (advanceBy (min k text.length) (ofString text)) =
      Cursor.position (advanceBy k (ofString text)) := by
  have htake : text.toList.take (min k text.length) = text.toList.take k := by
    rw [List.take_eq_take_iff, String.length_toList, Nat.min_assoc, Nat.min_self]
  rw [position_advanceBy_ofString, position_advanceBy_ofString, htake]

theorem position_lt_position_iff (j k : Nat) :
    Cursor.position (advanceBy j (ofString text)) < Cursor.position (advanceBy k (ofString text)) ↔
      min j text.length < min k text.length := by
  rw [← position_advanceBy_min text j, ← position_advanceBy_min text k]
  have hj := Nat.min_le_right j text.length
  have hk := Nat.min_le_right k text.length
  generalize min j text.length = j at *
  generalize min k text.length = k at *
  have hgrows {j k : Nat} (hjk : j ≤ k) (hk : k ≤ text.length) :
      Cursor.position (advanceBy j (ofString text)) + (k - j) ≤
        Cursor.position (advanceBy k (ofString text)) :=
    (Reaches.advanceBy_of_le hjk (by rwa [length_remaining_ofString])).add_le_position
  constructor
  · intro hlt
    refine Nat.lt_of_not_le fun hkj => ?_
    have hle := hgrows hkj hj
    omega
  · intro hjk
    have hle := hgrows (Nat.le_of_lt hjk) hk
    omega

/-- Each step from the start of a text goes over one character, and no two of these steps end at one
offset. The steps past the end change nothing. -/
theorem ofString_walks :
    (∀ k, Stands text k (advanceBy k (ofString text))) ∧
    ∀ j k, Cursor.position (advanceBy j (ofString text)) <
        Cursor.position (advanceBy k (ofString text)) ↔
      min j text.length < min k text.length :=
  ⟨stands_advanceBy_ofString text, position_lt_position_iff text⟩

end Walk

example : (List.range 5).map (fun k => Cursor.position (advanceBy k (ofString "é→x"))) =
    [0, 2, 5, 6, 6] := by decide

end TextCursor

end Descent
