import Descent.Proofs.Consumption

/-!
# Verdicts

A verdict is what a run says of the input: the rest that a match leaves, a failure, or an error.
Values and events are left out. Verdicts of parts make up the verdict of the whole.
-/

namespace Descent

variable {γ σ α β : Type}

/-- The rest of a match, no rest for a failure, an error, or nothing when the run does not
finish. -/
abbrev Verdict (γ : Type) : Type := Option (Except GrammarError (Option γ))

namespace Verdict

/-- Goes on from the rest of a match. -/
def andThen (v : Verdict γ) (next : γ → Verdict γ) : Verdict γ :=
  match v with
  | some (.ok (some rest)) => next rest
  | v => v

/-- Takes the other verdict in place of a failure. -/
def orElse (v other : Verdict γ) : Verdict γ :=
  match v with
  | some (.ok none) => other
  | v => v

/-- The match that leaves the rest `c`. -/
def accept (c : γ) : Verdict γ := some (.ok (some c))

def reject : Verdict γ := some (.ok none)

/-- Turns a match into a failure, and a failure into a match that reads nothing. -/
def negate (c : γ) (v : Verdict γ) : Verdict γ :=
  match v with
  | some (.ok (some _)) => reject
  | some (.ok none) => accept c
  | v => v

def symbol [Cursor γ σ] (accepts : σ → Bool) (c : γ) : Verdict γ :=
  match Cursor.current c with
  | some s => if accepts s then accept (Cursor.advance c) else reject
  | none => reject

theorem andThen_congr {v : Verdict γ} {next next' : γ → Verdict γ}
    (h : ∀ rest, v = accept rest → next rest = next' rest) : v.andThen next = v.andThen next' := by
  rcases v with _ | _ | _ | rest
  case some.ok.some => exact h rest rfl
  all_goals rfl

variable [Cursor γ σ] [LawfulCursor γ] {c : γ}

theorem symbol_of_nil (accepts : σ → Bool) (h : Cursor.remaining c = []) :
    symbol accepts c = reject := by
  rw [symbol, LawfulCursor.current_eq_head?, h]
  rfl

theorem symbol_of_cons {accepts : σ → Bool} {s : σ} {w : List σ}
    (h : Cursor.remaining c = s :: w) :
    symbol accepts c = if accepts s then accept (Cursor.advance c) else reject := by
  rw [symbol, LawfulCursor.current_eq_head?, h]
  rfl

end Verdict

def Run.verdict (x : Run (Outcome γ α)) : Verdict γ := x.result?.map (Except.map Outcome.rest?)

theorem Run.verdict_eq_accept_iff {x : Run (Outcome γ α)} {rest : γ} :
    x.verdict = .accept rest ↔ ∃ value, x.result? = some (.ok (.success value rest)) := by
  rw [verdict, Verdict.accept]
  rcases x.result? with _ | _ | ⟨value, rest'⟩ | _
  case some.ok.success => simp [Except.map, Outcome.rest?]
  all_goals simp [Except.map, Outcome.rest?]

theorem Run.verdict_eq_reject_iff {x : Run (Outcome γ α)} :
    x.verdict = .reject ↔ x.result? = some (.ok .failure) := by
  rw [verdict, Verdict.reject]
  rcases x.result? with _ | _ | _ | _ <;> simp [Except.map, Outcome.rest?]

theorem Run.verdict_eq_none_iff {x : Run (Outcome γ α)} : x.verdict = none ↔ x = .unfinished := by
  rw [verdict, Option.map_eq_none_iff, Run.result?_eq_none_iff]

namespace Recognizer

theorem verdict_action (p : Recognizer γ α) (f : α → β) (c : γ) :
    (p.action f c).verdict = (p c).verdict := by
  rw [Run.verdict, Run.verdict, result?_action]
  rcases (p c).result? with _ | _ | _ | _ <;> rfl

theorem verdict_andThen (p : Recognizer γ α) {next : α → Recognizer γ β} {next' : γ → Verdict γ}
    (c : γ) (h : ∀ value rest, (next value rest).verdict = next' rest) :
    (p.andThen next c).verdict = (p c).verdict.andThen next' := by
  rw [Run.verdict, Run.verdict, result?_andThen]
  rcases (p c).result? with _ | _ | ⟨value, rest⟩ | _
  case some.ok.success => exact h value rest
  all_goals rfl

theorem verdict_sequence_cons (p : Recognizer γ α) (ps : List (Recognizer γ α)) (c : γ) :
    (sequence (p :: ps) c).verdict =
      (p c).verdict.andThen fun rest => (sequence ps rest).verdict :=
  verdict_andThen p c fun value rest => verdict_action (sequence ps) (value :: ·) rest

theorem verdict_pair (p : Recognizer γ α) (q : Recognizer γ β) (c : γ) :
    (p.pair q c).verdict = (p c).verdict.andThen fun rest => (q rest).verdict :=
  verdict_andThen p c fun value rest => verdict_action q (value, ·) rest

theorem length_of_sequence_success {ps : List (Recognizer γ α)} {c rest : γ} {values : List α}
    (h : (sequence ps c).result? = some (.ok (.success values rest))) :
    values.length = ps.length := by
  induction ps generalizing c values with
  | nil =>
    cases h
    rfl
  | cons p ps ih =>
    obtain ⟨value, middle, -, hrest⟩ := andThen_success_iff.mp h
    obtain ⟨values, hvalues, rfl⟩ := action_success_iff.mp hrest
    rw [List.length_cons, List.length_cons, ih hvalues]

/-- A selection in range leaves the verdict to its sequence. -/
theorem verdict_select (ps : List (Recognizer γ α)) {index : Nat} (h : index < ps.length)
    (c : γ) : (select ps index c).verdict = (sequence ps c).verdict := by
  rw [Run.verdict, Run.verdict, select, result?_andThen]
  cases hps : (sequence ps c).result? with
  | none => rfl
  | some result =>
    rcases result with _ | ⟨values, rest⟩ | _
    case ok.success =>
      have hlen := length_of_sequence_success hps
      dsimp only
      rw [List.getElem?_eq_getElem (hlen ▸ h)]
      rfl
    all_goals rfl

theorem verdict_choice_cons (p : Recognizer γ α) (ps : List (Recognizer γ α)) (c : γ) :
    (choice (p :: ps) c).verdict = (p c).verdict.orElse (choice ps c).verdict := by
  rw [Run.verdict, Run.verdict, result?_choice_cons]
  rcases (p c).result? with _ | _ | _ | _ <;> rfl

theorem verdict_optionalOr (p : Recognizer γ α) (absent : α) (c : γ) :
    (p.optionalOr absent c).verdict = (p c).verdict.orElse (.accept c) := by
  rw [Run.verdict, Run.verdict, result?_optionalOr]
  rcases (p c).result? with _ | _ | _ | _ <;> rfl

theorem verdict_optional (p : Recognizer γ α) (c : γ) :
    (p.optional c).verdict = (p c).verdict.orElse (.accept c) := by
  rw [optional, verdict_optionalOr, verdict_action]

theorem verdict_anySymbol [Cursor γ σ] (c : γ) :
    (anySymbol c).verdict = .symbol (fun _ => true) c := by
  rw [anySymbol, Verdict.symbol]
  cases Cursor.current c <;> rfl

theorem verdict_oneOf [Cursor γ σ] [BEq σ] (symbols : List σ) (c : γ) :
    (oneOf symbols c).verdict = .symbol (accepts symbols) c := by
  rw [oneOf, Verdict.symbol]
  cases Cursor.current c with
  | none => rfl
  | some s =>
    dsimp only
    split <;> rfl

theorem verdict_endOfInput [Cursor γ σ] (value : α) (c : γ) :
    (endOfInput value c).verdict = (Verdict.symbol (fun _ => true) c).negate c := by
  rw [endOfInput, Verdict.symbol, Cursor.isExhausted]
  cases Cursor.current c <;> rfl

section Many

variable [Cursor γ σ] [LawfulCursor γ] {p : Recognizer γ α}

theorem verdict_many_zero (h : ReadsUnless False p) (budget : Nat) (c : γ) :
    (many (budget + 1) p 0 c).verdict =
      ((p c).verdict.andThen fun rest => (many budget p 0 rest).verdict).orElse (.accept c) := by
  rw [Run.verdict, Run.verdict, result?_many_add_one]
  cases hp : (p c).result? with
  | none => rfl
  | some result =>
    rcases result with _ | ⟨value, rest⟩ | _
    case ok.success =>
      dsimp only [Verdict.andThen, Option.map_some, Except.map, Outcome.rest?]
      rw [if_neg (h.progresses c value rest hp), ← Run.verdict, verdict_action, Run.verdict,
        result?_many]
      rcases (p.row budget 0 rest).result? with _ | _ | _ <;> rfl
    all_goals rfl

theorem verdict_many_succ (h : ReadsUnless False p) (budget min : Nat) (c : γ) :
    (many (budget + 1) p (min + 1) c).verdict =
      (p c).verdict.andThen fun rest => (many budget p min rest).verdict := by
  rw [Run.verdict, Run.verdict, result?_many_add_one]
  cases hp : (p c).result? with
  | none => rfl
  | some result =>
    rcases result with _ | ⟨value, rest⟩ | _
    case ok.success =>
      dsimp only
      rw [if_neg (h.progresses c value rest hp)]
      exact verdict_action _ (value :: ·) rest
    all_goals rfl

end Many

end Recognizer

end Descent
