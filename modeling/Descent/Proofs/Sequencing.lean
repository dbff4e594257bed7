import Descent.Cursor.Slice
import Descent.Proofs.Verdict

/-!
# Laws of sequences

A flat sequence does what pairs nested to the left do, one call after another and with the same
events, and it can be cut in two anywhere. A selection is its sequence with all values but one
dropped, or with an error in place of a match when it wants a value that no sequence of this length
has.
-/

namespace Descent.Recognizer

variable {γ α β : Type}

/-- What is done with the values of matches is all that counts behind a recognizer. -/
theorem andThen_congr {p : Recognizer γ α} {next next' : α → Recognizer γ β}
    (h : ∀ c value rest, (p c).result? = some (.ok (.success value rest)) →
      next value rest = next' value rest) : p.andThen next = p.andThen next' := by
  funext c
  have hc := h c
  simp only [andThen]
  rcases hp : p c with _ | ⟨events, _ | ⟨value, rest⟩ | _⟩
  case finished.ok.success =>
    rw [hp] at hc
    rw [Run.finished_ok_bind, Run.finished_ok_bind]
    dsimp only
    rw [hc value rest rfl]
  all_goals rfl

theorem sequence_append (ps qs : List (Recognizer γ α)) :
    sequence (ps ++ qs) =
      (sequence ps).andThen fun values => (sequence qs).action (values ++ ·) := by
  induction ps with
  | nil =>
    simp only [sequence, List.nil_append, succeed_andThen, action_eq_andThen]
    exact (andThen_succeed _).symm
  | cons p ps ih =>
    simp only [List.cons_append, sequence, ih, action_eq_andThen, andThen_andThen, succeed_andThen]

theorem sequence_append_eq_pair (ps qs : List (Recognizer γ α)) :
    sequence (ps ++ qs) = ((sequence ps).pair (sequence qs)).action fun v => v.1 ++ v.2 := by
  simp only [sequence_append, pair, action_eq_andThen, andThen_andThen, succeed_andThen]

/-- The values of pairs nested to the left, so many within one another. -/
def Nested (α : Type) : Nat → Type
  | 0 => α
  | depth + 1 => Nested α depth × α

def Nested.toList : (depth : Nat) → Nested α depth → List α
  | 0, value => [value]
  | depth + 1, (earlier, last) => toList depth earlier ++ [last]

/-- Pairs nested to the left: of a first recognizer with a second one, of that pair with a third one,
and so on. -/
structure Chain (γ α : Type) where
  depth : Nat
  recognizer : Recognizer γ (Nested α depth)

namespace Chain

def of (p : Recognizer γ α) : Chain γ α := ⟨0, p⟩

def push (s : Chain γ α) (p : Recognizer γ α) : Chain γ α := ⟨s.depth + 1, s.recognizer.pair p⟩

/-- The chain with its values in a list. -/
def flattened (s : Chain γ α) : Recognizer γ (List α) := s.recognizer.action (Nested.toList s.depth)

theorem flattened_of (p : Recognizer γ α) : (of p).flattened = sequence [p] := by
  have hof : (of p).flattened = p.action fun value => [value] := rfl
  simp only [hof, sequence, action_eq_andThen, succeed_andThen]

theorem flattened_push (s : Chain γ α) (p : Recognizer γ α) :
    (s.push p).flattened = s.flattened.andThen fun values => p.action (values ++ [·]) := by
  have hpush : (s.push p).flattened =
      (s.recognizer.pair p).action fun v => Nested.toList s.depth v.1 ++ [v.2] := rfl
  rw [hpush]
  simp only [flattened, pair, action_eq_andThen, andThen_andThen, succeed_andThen]

/-- One more pair is one more element. -/
theorem flattened_push_of_eq {s : Chain γ α} {ps : List (Recognizer γ α)}
    (h : s.flattened = sequence ps) (p : Recognizer γ α) :
    (s.push p).flattened = sequence (ps ++ [p]) := by
  rw [flattened_push, h, sequence_append]
  simp only [sequence, action_eq_andThen, andThen_andThen, succeed_andThen]

theorem flattened_foldl {s : Chain γ α} {ps : List (Recognizer γ α)}
    (h : s.flattened = sequence ps) (qs : List (Recognizer γ α)) :
    (qs.foldl push s).flattened = sequence (ps ++ qs) := by
  induction qs generalizing s ps with
  | nil => rw [List.foldl_nil, h, List.append_nil]
  | cons q qs ih =>
    rw [List.foldl_cons, ih (flattened_push_of_eq h q), List.append_assoc, List.singleton_append]

end Chain

/-- A selection in range is the element that it selects, with what stands before it and after it
run for nothing but their rests. -/
theorem select_append_cons (ps : List (Recognizer γ α)) (p : Recognizer γ α)
    (qs : List (Recognizer γ α)) :
    select (ps ++ p :: qs) ps.length =
      (sequence ps).andThen fun _ => p.andThen fun value => (sequence qs).action fun _ => value := by
  simp only [select, sequence_append, sequence, action_eq_andThen, andThen_andThen, succeed_andThen]
  apply andThen_congr
  intro c before rest hbefore
  simp only [← length_of_sequence_success hbefore, List.getElem?_append_right (Nat.le_refl _),
    Nat.sub_self, List.getElem?_cons_zero]

theorem select_of_length_le (ps : List (Recognizer γ α)) {index : Nat} (h : ps.length ≤ index) :
    select ps index =
      (sequence ps).andThen fun _ _ => .fail (.noSuchElement index ps.length) := by
  apply andThen_congr
  intro c values rest hvalues
  rw [← length_of_sequence_success hvalues] at h
  rw [List.getElem?_eq_none h]

/-- A flat sequence is the chain of pairs with its values in a list, and the pair of its two parts
wherever it is cut; its matches have a value for each element. A selection has the verdicts of the
sequence and the value of the element that it selects, as long as there is such an element; if there
is none, it has an error wherever the sequence matches. -/
theorem sequence_eq_chain (p : Recognizer γ α) (ps : List (Recognizer γ α)) :
    sequence (p :: ps) = (ps.foldl Chain.push (.of p)).flattened ∧
    (∀ before after, before ++ after = p :: ps →
      sequence (p :: ps) =
        ((sequence before).pair (sequence after)).action fun v => v.1 ++ v.2) ∧
    (∀ c values rest, (sequence (p :: ps) c).result? = some (.ok (.success values rest)) →
      values.length = (p :: ps).length) ∧
    (∀ before q after, before ++ q :: after = p :: ps →
      select (p :: ps) before.length =
          ((sequence before).andThen fun _ => q.andThen fun value =>
            (sequence after).action fun _ => value) ∧
        ∀ c, (select (p :: ps) before.length c).verdict = (sequence (p :: ps) c).verdict) ∧
    (∀ index, (p :: ps).length ≤ index →
      select (p :: ps) index = (sequence (p :: ps)).andThen fun _ _ =>
        .fail (.noSuchElement index (p :: ps).length)) := by
  refine ⟨(Chain.flattened_foldl (Chain.flattened_of p) ps).symm, ?_, ?_, ?_, ?_⟩
  · intro before after h
    rw [← h, sequence_append_eq_pair]
  · intro c values rest h
    exact length_of_sequence_success h
  · intro before q after h
    rw [← h]
    refine ⟨select_append_cons before q after, fun c => verdict_select _ ?_ c⟩
    simp
  · intro index h
    exact select_of_length_le _ h

end Descent.Recognizer

namespace Descent.Clock

open Recognizer (Chain select sequence)

def digit : Recognizer (SliceCursor Char) Char := .oneOf ['3', '7']

def colon : Recognizer (SliceCursor Char) Char := .oneOf [':']

def text : Array Char := #['7', ':', '3', 'h']

/-- Two digits with a colon between them, flat and in pairs. The last digit is the element at two,
and there is none at three. -/
theorem time_sequence_eq_chain :
    ((sequence [digit, colon, digit]) (.ofArray text)).result? =
      some (.ok (.success ['7', ':', '3'] (.reading text 3))) ∧
    (([colon, digit].foldl Chain.push (.of digit)).flattened (.ofArray text)).result? =
      some (.ok (.success ['7', ':', '3'] (.reading text 3))) ∧
    sequence [digit, colon, digit] =
      ((sequence [digit]).pair (sequence [colon, digit])).action (fun v => v.1 ++ v.2) ∧
    ['7', ':', '3'].length = [digit, colon, digit].length ∧
    (select [digit, colon, digit] 2 (.ofArray text)).result? =
      some (.ok (.success '3' (.reading text 3))) ∧
    (select [digit, colon, digit] 3 (.ofArray text)).result? =
      some (.error (.noSuchElement 3 3)) := by
  obtain ⟨hchain, hcut, hlength, hselect, hrange⟩ :=
    Recognizer.sequence_eq_chain digit [colon, digit]
  have hfound : ((sequence [digit, colon, digit]) (.ofArray text)).result? =
      some (.ok (.success ['7', ':', '3'] (.reading text 3))) := rfl
  have hlast : select [digit, colon, digit] 2 = _ := (hselect [digit, colon] digit [] rfl).1
  refine ⟨hfound, ?_, hcut [digit] [colon, digit] rfl, hlength _ _ _ hfound, ?_, ?_⟩
  · rw [← hchain, hfound]
  · rw [hlast]
    rfl
  · rw [hrange 3 (Nat.le_refl 3)]
    rfl

end Descent.Clock
