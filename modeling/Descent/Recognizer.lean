import Descent.Cursor
import Descent.Outcome
import Descent.Run

/-!
# Recognizers

A recognizer runs on a cursor and, unless the grammar is at fault, ends in an outcome. This module
holds the primitive recognizers and the ways to combine recognizers into larger ones. A failed part
gives up no more than its own work: whatever runs next starts from the cursor that it had.
-/

namespace Descent

/-- What can be run on a cursor. -/
abbrev Recognizer (γ α : Type) : Type := γ → Run (Outcome γ α)

namespace Recognizer

variable {γ σ α β : Type}

/-- Matches without reading. -/
@[inline] def succeed (value : α) : Recognizer γ α := fun c => pure (.success value c)

@[inline] def reject : Recognizer γ α := fun _ => pure .failure

/-- Runs the next recognizer on the rest of a match. -/
@[inline] def andThen (p : Recognizer γ α) (next : α → Recognizer γ β) : Recognizer γ β :=
  fun c => do
    match ← p c with
    | .success value rest => next value rest
    | .failure => pure .failure

@[inline] def action (p : Recognizer γ α) (f : α → β) : Recognizer γ β :=
  fun c => do return (← p c).map f

/-- All the recognizers in turn, each on the rest of the one before. -/
def sequence : List (Recognizer γ α) → Recognizer γ (List α)
  | [] => succeed []
  | p :: ps => andThen p fun value => action (sequence ps) (value :: ·)

/-- The value of one element of a sequence. That the element exists is checked only when the whole
sequence has matched. -/
@[inline] def select (ps : List (Recognizer γ α)) (index : Nat) : Recognizer γ α :=
  andThen (sequence ps) fun values =>
    match values[index]? with
    | some value => succeed value
    | none => fun _ => .fail (.noSuchElement index ps.length)

@[inline] def pair (p : Recognizer γ α) (q : Recognizer γ β) : Recognizer γ (α × β) :=
  andThen p fun first => action q (first, ·)

/-- The first alternative that matches; each is tried on the same cursor. -/
def choice : List (Recognizer γ α) → Recognizer γ α
  | [] => reject
  | p :: ps => fun c => do
    match ← p c with
    | .success value rest => pure (.success value rest)
    | .failure => choice ps c

/-- A match, or the value that stands for its absence where the cursor was. -/
@[inline] def optionalOr (p : Recognizer γ α) (absent : α) : Recognizer γ α :=
  fun c => do
    match ← p c with
    | .success value rest => pure (.success value rest)
    | .failure => pure (.success absent c)

@[inline] def optional (p : Recognizer γ α) : Recognizer γ (Option α) :=
  optionalOr (action p some) none

/-- Some member of the set equals the symbol. The equality need not be symmetric: the member comes
first. -/
def accepts [BEq σ] (symbols : List σ) (s : σ) : Bool := symbols.any (· == s)

theorem accepts_iff_mem [BEq σ] [LawfulBEq σ] {symbols : List σ} {s : σ} :
    accepts symbols s = true ↔ s ∈ symbols := by
  simp [accepts]

variable [Cursor γ σ]

/-- A symbol equal to a member of the set. The value is the symbol of the input. -/
def oneOf [BEq σ] (symbols : List σ) : Recognizer γ σ := fun c =>
  match Cursor.current c with
  | some s => if accepts symbols s then succeed s (Cursor.advance c) else pure .failure
  | none => pure .failure

def anySymbol : Recognizer γ σ := fun c =>
  match Cursor.current c with
  | some s => succeed s (Cursor.advance c)
  | none => pure .failure

def endOfInput (value : α) : Recognizer γ α := fun c =>
  if Cursor.isExhausted c then pure (.success value c) else pure .failure

/-- The matches in a row from a cursor on, after `found` earlier ones, and the cursor that the last
of them leaves. The row ends before a failure, and before a match that leaves the position where
it was. Each round takes one unit of the budget. -/
def row (p : Recognizer γ α) (budget found : Nat) (c : γ) : Run (List α × γ) :=
  match budget with
  | 0 => .unfinished
  | budget + 1 => do
    match ← p c with
    | .failure => return ([], c)
    | .success value rest =>
      if Cursor.position rest = Cursor.position c then
        Run.note (.stalled (Cursor.position c) found)
        return ([], c)
      else
        let (values, last) ← row p budget (found + 1) rest
        return (value :: values, last)

/-- As many matches in a row as there are, provided they are at least `min`. -/
@[inline] def many (budget : Nat) (p : Recognizer γ α) (min : Nat) : Recognizer γ (List α) :=
  fun c => do
    let (values, rest) ← row p budget 0 c
    return if min ≤ values.length then .success values rest else .failure

end Recognizer

end Descent
