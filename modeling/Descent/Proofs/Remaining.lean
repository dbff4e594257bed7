import Descent.Cursor.Slice
import Descent.Cursor.Text
import Descent.Grammar.Brackets
import Descent.Proofs.Budget

/-!
# The symbols ahead decide

What a parser makes of an input hangs on the symbols that are still to be read and on nothing else,
so cursors of any two kinds with the same symbols ahead are parsed alike.
-/

namespace Descent

open Cursor (Reaches)

variable {γ γ' σ δ α : Type} [Cursor γ σ] [LawfulCursor γ] [Cursor γ' σ] [LawfulCursor γ']

namespace Lockstep

/-- Places with the same symbols ahead. -/
def SameRemaining (c : γ) (c' : γ') : Prop := Cursor.remaining c = Cursor.remaining c'

theorem sameRemaining_stepsKeep : StepsKeep (SameRemaining : γ → γ' → Prop) where
  length_eq h := congrArg List.length h
  advance h _ := by
    rw [SameRemaining, LawfulCursor.remaining_advance, LawfulCursor.remaining_advance, h]

/-- The lockstep of cursors with the same symbols ahead. Positions differ between the cursors, so
events may be any. -/
def sameRemaining : Lockstep γ γ' :=
  ofSteps sameRemaining_stepsKeep (fun _ _ => True) (fun _ _ _ _ => trivial)
    (fun _ _ _ _ => trivial)

theorem sameRemaining_reads : (sameRemaining : Lockstep γ γ').Reads Eq := by
  apply ofSteps_reads
  intro c c' hc
  rw [LawfulCursor.current_eq_head?, LawfulCursor.current_eq_head?, hc]
  cases (Cursor.remaining c').head? with
  | none => exact .none
  | some s => exact .some rfl

theorem sameRemaining_moves_self {c : γ} {c' : γ'} (h : SameRemaining c c') :
    sameRemaining.Moves c c' c c' :=
  ofSteps_moves_self h

end Lockstep

/-- Two runs, from `c` and from `c'`, that both do not finish, or end in one error, or both in a
failure, or in matches of one value after the same number of steps and with the same symbols
ahead. -/
inductive Run.EndsAlike (c : γ) (c' : γ') : Run (Outcome γ α) → Run (Outcome γ' α) → Prop
  | unfinished : EndsAlike c c' .unfinished .unfinished
  | error (events events' : List Event) (error : GrammarError) :
      EndsAlike c c' (.finished events (.error error)) (.finished events' (.error error))
  | failure (events events' : List Event) :
      EndsAlike c c' (.finished events (.ok .failure)) (.finished events' (.ok .failure))
  | success (events events' : List Event) (value : α) {k : Nat} {rest : γ} {rest' : γ'} :
      Reaches k c rest → Reaches k c' rest' → Cursor.remaining rest = Cursor.remaining rest' →
      EndsAlike c c' (.finished events (.ok (.success value rest)))
        (.finished events' (.ok (.success value rest')))

theorem Run.EndsAlike.of_refines {c : γ} {c' : γ'} {x : Run (Outcome γ α)}
    {y : Run (Outcome γ' α)} (hc : Lockstep.SameRemaining c c')
    (h : Run.Refines (fun _ _ => True)
      (Outcome.Matches Eq (Lockstep.sameRemaining.Moves c c')) x y)
    (h' : Run.Refines (fun _ _ => True)
      (Outcome.Matches Eq (Lockstep.sameRemaining.Moves c' c)) y x) :
    Run.EndsAlike c c' x y := by
  cases h with
  | unfinished =>
    cases h' with
    | unfinished => exact .unfinished
  | error e _ => exact .error _ _ e
  | value _ ho =>
    cases ho with
    | failure => exact .failure _ _
    | success hab hd =>
      obtain ⟨-, k, hk, hk'⟩ := hd
      subst hab
      refine .success _ _ _ hk hk' ?_
      rw [hk.remaining_eq, hk'.remaining_eq, hc]

/-- Parsing does not see what kind of cursor it is given, what was read before, or how places are
counted. -/
theorem Parser.parse_endsAlike [BEq σ] (r : Registry σ δ) (p : Parser σ δ) {c : γ} {c' : γ'}
    (h : Cursor.remaining c = Cursor.remaining c') :
    Run.EndsAlike c c' (p.parse r c) (p.parse r c') := by
  have hbudget : budget r p c = budget r p c' := by
    rw [budget, budget, h]
  have hright := recognizer_refines r (Lockstep.sameRemaining_reads (γ := γ))
    (Nat.le_of_eq hbudget) p c c' (Lockstep.sameRemaining_moves_self h)
  have hleft := recognizer_refines r (Lockstep.sameRemaining_reads (γ := γ'))
    (Nat.le_of_eq hbudget.symm) p c' c (Lockstep.sameRemaining_moves_self h.symm)
  exact .of_refines h hright hleft

theorem Brackets.item_endsAlike :
    Cursor.remaining (Cursor.advance (TextCursor.ofString "é(x)y")) =
      Cursor.remaining (SliceCursor.reading input 1) ∧
    Run.EndsAlike (Cursor.advance (TextCursor.ofString "é(x)y")) (SliceCursor.reading input 1)
      (item.parse rules (Cursor.advance (TextCursor.ofString "é(x)y")))
      (item.parse rules (SliceCursor.reading input 1)) := by
  have hremaining : Cursor.remaining (Cursor.advance (TextCursor.ofString "é(x)y")) =
      Cursor.remaining (SliceCursor.reading input 1) := by decide
  exact ⟨hremaining, Parser.parse_endsAlike rules item hremaining⟩

end Descent
