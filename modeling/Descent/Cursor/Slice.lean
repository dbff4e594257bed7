import Descent.Cursor

/-!
# Cursors over slices

A slice cursor counts elements. It either reads at an index of its data, which may lie past the last
element, or has ended; the step from the last index, or from one past it, ends the cursor.
-/

namespace Descent

/-- A place in an array of symbols. -/
inductive SliceCursor (σ : Type) where
  /-- At an index, which need not be in range. -/
  | reading (data : Array σ) (index : Nat)
  | ended (data : Array σ)

namespace SliceCursor

variable {σ : Type}

/-- The start of the data, which is also the end when there is none. -/
def ofArray (data : Array σ) : SliceCursor σ :=
  if data.isEmpty then ended data else reading data 0

def data : SliceCursor σ → Array σ
  | reading data _ => data
  | ended data => data

def isReading : SliceCursor σ → Bool
  | reading .. => true
  | ended _ => false

def current : SliceCursor σ → Option σ
  | reading data index => data[index]?
  | ended _ => none

/-- The next index, or the end when that index is out of range. -/
def advance : SliceCursor σ → SliceCursor σ
  | reading data index => if data.size ≤ index + 1 then ended data else reading data (index + 1)
  | ended data => ended data

/-- The index, and the number of elements at the end. -/
def position : SliceCursor σ → Nat
  | reading _ index => index
  | ended data => data.size

def remaining : SliceCursor σ → List σ
  | reading data index => data.toList.drop index
  | ended _ => []

/-- Equal cursors are at the same place of data that are equal element by element. -/
instance [BEq σ] : BEq (SliceCursor σ) where
  beq
    | reading d i, reading d' i' => d == d' && i == i'
    | ended d, ended d' => d == d'
    | _, _ => false

instance : Cursor (SliceCursor σ) σ where
  current := current
  advance := advance
  position := position
  remaining := remaining

instance : LawfulCursor (SliceCursor σ) where
  current_eq_head? c := by
    cases c <;> simp [Cursor.current, Cursor.remaining, current, remaining]
  remaining_advance c := by
    cases c with
    | ended => rfl
    | reading data index =>
      simp only [Cursor.remaining, Cursor.advance, advance]
      split <;> simp [remaining, *]
  position_lt_advance c h := by
    cases c with
    | ended => simp [Cursor.current, current] at h
    | reading data index =>
      have hlt : index < data.size := by
        simpa [Cursor.current, current, Nat.not_le] using h
      simp only [Cursor.position, Cursor.advance, advance]
      split <;> simp [position, hlt]

instance : SourcedCursor (SliceCursor σ) (Array σ) where
  source := data
  source_advance c := by
    cases c with
    | ended => rfl
    | reading data index =>
      simp only [Cursor.advance, advance]
      split <;> rfl

end SliceCursor

end Descent
