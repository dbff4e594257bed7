import Descent.Proofs.Budget

/-!
# Results of recognizers

What each way to combine recognizers makes of the results of its parts. The events are left out:
no result depends on them.
-/

namespace Descent

variable {γ σ α β : Type}

namespace Recognizer

theorem succeed_andThen (value : α) (next : α → Recognizer γ β) :
    (succeed value).andThen next = next value :=
  funext fun _ => pure_bind _ _

theorem andThen_succeed (p : Recognizer γ α) : p.andThen succeed = p := by
  funext c
  refine (bind_congr fun o => ?_).trans (bind_pure (p c))
  cases o <;> rfl

theorem andThen_andThen {α' : Type} (p : Recognizer γ α) (next : α → Recognizer γ β)
    (last : β → Recognizer γ α') :
    (p.andThen next).andThen last = p.andThen fun value => (next value).andThen last := by
  funext c
  simp only [andThen, bind_assoc]
  congr 1
  funext o
  cases o with
  | success value rest => rfl
  | failure => exact pure_bind _ _

theorem action_eq_andThen (p : Recognizer γ α) (f : α → β) :
    p.action f = p.andThen fun value => succeed (f value) := by
  funext c
  simp only [action, andThen]
  congr 1
  funext o
  cases o <;> rfl

theorem action_andThen {α' : Type} (p : Recognizer γ α) (f : α → β) (next : β → Recognizer γ α') :
    (p.action f).andThen next = p.andThen fun value => next (f value) := by
  simp only [action_eq_andThen, andThen_andThen, succeed_andThen]

theorem result?_andThen (p : Recognizer γ α) (next : α → Recognizer γ β) (c : γ) :
    (p.andThen next c).result? =
      match (p c).result? with
      | none => none
      | some (.error error) => some (.error error)
      | some (.ok .failure) => some (.ok .failure)
      | some (.ok (.success value rest)) => (next value rest).result? := by
  rw [andThen, Run.result?_bind]
  rcases (p c).result? with _ | _ | _ | _ <;> rfl

theorem result?_action (p : Recognizer γ α) (f : α → β) (c : γ) :
    (p.action f c).result? = (p c).result?.map (Except.map (Outcome.map f)) := by
  rw [action, Run.result?_bind]
  rcases (p c).result? with _ | _ | _ <;> rfl

theorem result?_choice_cons (p : Recognizer γ α) (ps : List (Recognizer γ α)) (c : γ) :
    (choice (p :: ps) c).result? =
      match (p c).result? with
      | some (.ok .failure) => (choice ps c).result?
      | result => result := by
  rw [choice, Run.result?_bind]
  rcases (p c).result? with _ | _ | _ | _ <;> rfl

/-- Alternatives that fail leave the result to those behind them. -/
theorem result?_choice_append {ps : List (Recognizer γ α)} {c : γ}
    (h : ∀ p ∈ ps, (p c).result? = some (.ok .failure)) (qs : List (Recognizer γ α)) :
    (choice (ps ++ qs) c).result? = (choice qs c).result? := by
  induction ps with
  | nil => rfl
  | cons p ps ih =>
    rw [List.cons_append, result?_choice_cons, h p List.mem_cons_self]
    exact ih fun q hq => h q (List.mem_cons_of_mem p hq)

theorem result?_optionalOr (p : Recognizer γ α) (absent : α) (c : γ) :
    (p.optionalOr absent c).result? =
      match (p c).result? with
      | some (.ok .failure) => some (.ok (.success absent c))
      | result => result := by
  rw [optionalOr, Run.result?_bind]
  rcases (p c).result? with _ | _ | _ | _ <;> rfl

section Success

variable {p : Recognizer γ α} {c rest : γ}

theorem andThen_success_iff {next : α → Recognizer γ β} {value : β} :
    (p.andThen next c).result? = some (.ok (.success value rest)) ↔
      ∃ first middle, (p c).result? = some (.ok (.success first middle)) ∧
        (next first middle).result? = some (.ok (.success value rest)) := by
  rw [result?_andThen]
  rcases (p c).result? with _ | _ | _ | _ <;> simp

theorem action_success_iff {f : α → β} {value : β} :
    (p.action f c).result? = some (.ok (.success value rest)) ↔
      ∃ inner, (p c).result? = some (.ok (.success inner rest)) ∧ f inner = value := by
  rw [result?_action]
  rcases (p c).result? with _ | _ | _ | _ <;> simp [Except.map, and_comm]

theorem action_ends_iff {f : α → β} : (p.action f c).result? = none ↔ (p c).result? = none := by
  rw [result?_action, Option.map_eq_none_iff]

end Success

variable [Cursor γ σ]

theorem result?_row_succ (p : Recognizer γ α) (budget found : Nat) (c : γ) :
    (p.row (budget + 1) found c).result? =
      match (p c).result? with
      | none => none
      | some (.error error) => some (.error error)
      | some (.ok .failure) => some (.ok ([], c))
      | some (.ok (.success value rest)) =>
        if Cursor.position rest = Cursor.position c then some (.ok ([], c))
        else (p.row budget (found + 1) rest).result?.map (Except.map (Prod.map (value :: ·) id)) := by
  rw [row, Run.result?_bind]
  rcases (p c).result? with _ | _ | ⟨value, rest⟩ | _
  case some.ok.success =>
    dsimp only
    split
    · exact Run.result?_note_bind _ _
    · rw [Run.result?_bind]
      rcases (p.row budget (found + 1) rest).result? with _ | _ | _ <;> rfl
  all_goals rfl

/-- The count of earlier matches shows in the events alone. -/
theorem result?_row_found (p : Recognizer γ α) (budget found found' : Nat) (c : γ) :
    (p.row budget found c).result? = (p.row budget found' c).result? := by
  induction budget generalizing found found' c with
  | zero => rfl
  | succ budget ih =>
    rw [result?_row_succ, result?_row_succ]
    rcases (p c).result? with _ | _ | ⟨value, rest⟩ | _
    case some.ok.success =>
      dsimp only
      rw [ih (found + 1) (found' + 1) rest]
    all_goals rfl

theorem result?_many (p : Recognizer γ α) (budget min : Nat) (c : γ) :
    (many budget p min c).result? =
      (p.row budget 0 c).result?.map (Except.map fun v =>
        if min ≤ v.1.length then .success v.1 v.2 else .failure) := by
  rw [many, Run.result?_bind]
  rcases (p.row budget 0 c).result? with _ | _ | _ <;> rfl

/-- A repetition goes on after a match that makes progress, and then it needs one match less. -/
theorem result?_many_add_one (p : Recognizer γ α) (budget min : Nat) (c : γ) :
    (many (budget + 1) p min c).result? =
      match (p c).result? with
      | none => none
      | some (.error error) => some (.error error)
      | some (.ok .failure) => some (.ok (if min = 0 then .success [] c else .failure))
      | some (.ok (.success value rest)) =>
        if Cursor.position rest = Cursor.position c then
          some (.ok (if min = 0 then .success [] c else .failure))
        else ((many budget p (min - 1)).action (value :: ·) rest).result? := by
  simp only [← Nat.le_zero]
  rw [result?_many, result?_row_succ]
  rcases (p c).result? with _ | _ | ⟨value, rest⟩ | _
  case some.ok.success =>
    dsimp only
    split
    · rfl
    · rw [result?_action, result?_many, result?_row_found p budget (0 + 1) 0]
      rcases (p.row budget 0 rest).result? with _ | _ | ⟨values, last⟩
      case some.ok =>
        simp only [Option.map_some, Except.map, Prod.map, List.length_cons, Nat.sub_le_iff_le_add]
        split <;> rfl
      all_goals rfl
  all_goals rfl

end Recognizer

/-- A reference leaves the result to the body that it finds. -/
theorem Parser.result?_step_reference {σ δ : Type} [Cursor γ σ] [BEq σ] (r : Registry σ δ)
    (rounds : Nat) (run : Parser σ δ → Recognizer γ (Value σ δ)) (g : GrammarId) (name : String)
    (c : γ) :
    (step r rounds run (.reference g name) c).result? =
      match r.resolve g name with
      | .error error => some (.error error)
      | .ok body => (run body c).result? := by
  simp only [step]
  cases hresolve : r.resolve g name <;> simp [Run.ofExcept]

section Found

variable {σ δ : Type} [Cursor γ σ] [BEq σ] (r : Registry σ δ)

/-- What a run of whatever was looked up comes to; without a parser, the error of the look-up. -/
def Registry.resultOf (found : Except GrammarError (Parser σ δ)) (c : γ) :
    Option (Except GrammarError (Outcome γ (Value σ δ))) :=
  match found with
  | .ok p => (p.parse r c).result?
  | .error e => some (.error e)

theorem Registry.result?_parse (g : GrammarId) (name : String) (c : γ) :
    (r.parse g name c).result? = r.resultOf (r.resolve g name) c := by
  simp only [Registry.parse, Registry.resultOf, Run.result?_bind, Run.result?_ofExcept]
  cases r.resolve g name <;> rfl

theorem Parser.result?_parse_reference [LawfulCursor γ] (g : GrammarId) (name : String) (c : γ) :
    ((reference g name).parse r c).result? = r.resultOf (r.resolve g name) c := by
  rw [parse_eq_step r _ (Nat.lt_succ_self _), result?_step_reference]
  cases r.resolve g name <;> rfl

end Found

end Descent
