import Descent.Grammar.Brackets
import Descent.Proofs.Consumption

/-!
# Laws of repetition

A minimum is so many matches in a row before a free repetition, as long as every match makes progress.
An optional part makes no difference to what repeats it, for its absence is no progress. And a
repetition of a repetition has nothing left to repeat after the first round.
-/

namespace Descent

namespace Recognizer

variable {γ σ α β : Type}

/-- The results under large bounds do not change when every bound is raised. -/
theorem comesTo_add_iff {p : Nat → Recognizer γ α} {c : γ}
    {result : Except GrammarError (Outcome γ α)} (n : Nat) :
    ComesTo (fun budget => p (n + budget)) c result ↔ ComesTo p c result := by
  constructor
  · rintro ⟨enough, h⟩
    refine ⟨n + enough, fun budget hbudget => ?_⟩
    obtain ⟨more, rfl⟩ := Nat.exists_eq_add_of_le (Nat.le_of_add_right_le hbudget)
    exact h more (Nat.le_of_add_le_add_left hbudget)
  · rintro ⟨enough, h⟩
    exact ⟨enough, fun budget hbudget => h _ (Nat.le_trans hbudget (Nat.le_add_left budget n))⟩

variable [Cursor γ σ]

/-- So many matches in turn, and on their rest as many more as there are. -/
def copiesThenMany (budget : Nat) (p : Recognizer γ α) (min : Nat) : Recognizer γ (List α) :=
  (sequence (List.replicate min p)).andThen fun first => (many budget p 0).action (first ++ ·)

section Minimum

variable (p : Recognizer γ α) (budget min : Nat) (c : γ)

theorem copiesThenMany_zero : copiesThenMany budget p 0 = many budget p 0 := by
  simp only [copiesThenMany, List.replicate_zero, sequence, succeed_andThen, action_eq_andThen]
  exact andThen_succeed _

theorem copiesThenMany_succ :
    copiesThenMany budget p (min + 1) =
      p.andThen fun value => (copiesThenMany budget p min).action (value :: ·) := by
  simp only [copiesThenMany, List.replicate_succ, sequence, action_eq_andThen, andThen_andThen,
    succeed_andThen, List.cons_append]

variable {p c}

/-- A minimum that was not checked before the end is checked match by match. -/
theorem Progresses.result?_many (h : Progresses p) :
    (many (min + budget) p min c).result? = (copiesThenMany budget p min c).result? := by
  induction min generalizing c with
  | zero => rw [Nat.zero_add, copiesThenMany_zero]
  | succ min ih =>
    rw [Nat.add_right_comm, result?_many_add_one, copiesThenMany_succ, result?_andThen]
    cases hp : (p c).result? with
    | none => rfl
    | some result =>
      rcases result with _ | ⟨value, rest⟩ | _
      case ok.success =>
        dsimp only
        -- Here progress is needed: a match that stays is a copy, but it ends the repetition.
        rw [if_neg (h c value rest hp), Nat.add_sub_cancel, result?_action, result?_action, ih]
      all_goals rfl

theorem result?_copiesThenMany_of_many {values : List α} {rest : γ}
    (h : (many (min + budget) p min c).result? = some (.ok (.success values rest))) :
    (copiesThenMany budget p min c).result? = some (.ok (.success values rest)) := by
  induction min generalizing c values with
  | zero => rwa [copiesThenMany_zero, ← Nat.zero_add budget]
  | succ min ih =>
    rw [Nat.add_right_comm, result?_many_add_one] at h
    split at h
    · cases h
    · cases h
    · cases h
    next value middle hp =>
      split at h
      · cases h
      · obtain ⟨tail, htail, rfl⟩ := action_success_iff.mp h
        rw [copiesThenMany_succ]
        exact andThen_success_iff.mpr
          ⟨value, middle, hp, action_success_iff.mpr ⟨tail, ih htail, rfl⟩⟩

end Minimum

/-- A repetition with a minimum is so many copies of what it repeats and then a repetition without:
to the same result, if every match makes progress, and to the same match, if there is one, in any
case. -/
theorem many_comesTo_iff_copies (p : Recognizer γ α) (min : Nat) (c : γ) :
    (Progresses p → ∀ result,
      ComesTo (many · p min) c result ↔ ComesTo (copiesThenMany · p min) c result) ∧
    ∀ values rest, ComesTo (many · p min) c (.ok (.success values rest)) →
      ComesTo (copiesThenMany · p min) c (.ok (.success values rest)) := by
  constructor
  · intro h result
    rw [← comesTo_add_iff min]
    simp only [ComesTo, h.result?_many _ min]
  · intro values rest h
    obtain ⟨enough, h⟩ := (comesTo_add_iff min).mpr h
    exact ⟨enough, fun budget hbudget => result?_copiesThenMany_of_many budget min (h budget hbudget)⟩

end Recognizer

namespace Letters

open Recognizer (ComesTo Progresses Rounds StopsAt copiesThenMany many)

def letter : Recognizer (SliceCursor Char) Char := .oneOf ['x']

def text : Array Char := #['x', 'x', 'x', 'y']

/-- Two letters or more are two letters and then any number. If each of them may be missing there is
still the same match. -/
theorem letter_comesTo_iff_copies :
    Progresses letter ∧
    ComesTo (copiesThenMany · letter 2) (.ofArray text)
      (.ok (.success ['x', 'x', 'x'] (.reading text 3))) ∧
    ComesTo (many · letter.optional 1) (.reading text 2)
      (.ok (.success [some 'x'] (.reading text 3))) ∧
    ComesTo (copiesThenMany · letter.optional 1) (.reading text 2)
      (.ok (.success [some 'x'] (.reading text 3))) := by
  have hprogresses : Progresses letter := (Recognizer.ReadsUnless.oneOf ['x']).progresses
  have hmany : ComesTo (many · letter 2) (.ofArray text)
      (.ok (.success ['x', 'x', 'x'] (.reading text 3))) := by
    have hrounds : Rounds letter (.ofArray text) ['x', 'x', 'x'] (.reading text 3) :=
      .cons rfl (by decide) (.cons rfl (by decide) (.cons rfl (by decide) (.nil _)))
    exact Recognizer.comesTo_many_iff.mpr ⟨_, _, hrounds, .inl ⟨.inl rfl, rfl⟩⟩
  have hoptional : ComesTo (many · letter.optional 1) (.reading text 2)
      (.ok (.success [some 'x'] (.reading text 3))) := by
    have hrounds : Rounds letter.optional (.reading text 2) [some 'x'] (.reading text 3) :=
      .cons rfl (by decide) (.nil _)
    have hstop : StopsAt letter.optional (.reading text 3) := .inr ⟨none, _, rfl, rfl⟩
    exact Recognizer.comesTo_many_iff.mpr ⟨_, _, hrounds, .inl ⟨hstop, rfl⟩⟩
  exact ⟨hprogresses,
    ((Recognizer.many_comesTo_iff_copies letter 2 _).1 hprogresses _).mp hmany, hoptional,
    (Recognizer.many_comesTo_iff_copies letter.optional 1 _).2 _ _ hoptional⟩

end Letters

namespace Recognizer

variable {γ σ α β : Type} [Cursor γ σ]

section Optional

variable (p : Recognizer γ α) (budget found : Nat) (c : γ)

theorem result?_row_action (f : α → β) :
    ((p.action f).row budget found c).result? =
      (p.row budget found c).result?.map (Except.map (Prod.map (List.map f) id)) := by
  induction budget generalizing found c with
  | zero => rfl
  | succ budget ih =>
    rw [result?_row_succ, result?_row_succ, result?_action]
    rcases (p c).result? with _ | _ | ⟨value, rest⟩ | _
    case some.ok.success =>
      dsimp only [Option.map_some, Except.map, Outcome.map]
      split
      · rfl
      · rw [ih]
        rcases (p.row budget (found + 1) rest).result? with _ | _ | _ <;> rfl
    all_goals rfl

/-- The absence of a match stands where the cursor was, and there a row ends as it does without. -/
theorem result?_row_optionalOr (absent : α) :
    ((p.optionalOr absent).row budget found c).result? = (p.row budget found c).result? := by
  induction budget generalizing found c with
  | zero => rfl
  | succ budget ih =>
    rw [result?_row_succ, result?_row_succ, result?_optionalOr]
    rcases (p c).result? with _ | _ | ⟨value, rest⟩ | _
    case some.ok.success =>
      dsimp only
      rw [ih]
    case some.ok.failure => exact if_pos rfl
    all_goals rfl

end Optional

/-- To repeat something that may be missing is to repeat it. What stands for its absence is never
collected, nor does it count. -/
theorem many_optional (p : Recognizer γ α) (absent : α) (budget min : Nat) (c : γ) :
    (many budget p.optional min c).result? =
      (many budget p min c).result?.map (Except.map (Outcome.map (List.map some))) ∧
    (many budget (p.optionalOr absent) min c).result? = (many budget p min c).result? := by
  constructor
  · rw [result?_many, optional, result?_row_optionalOr, result?_row_action, result?_many]
    rcases (p.row budget 0 c).result? with _ | _ | ⟨values, rest⟩
    case some.ok =>
      simp only [Option.map_some, Except.map, Prod.map, List.length_map, id]
      split <;> rfl
    all_goals rfl
  · rw [result?_many, result?_row_optionalOr, result?_many]

end Recognizer

namespace Parser

open Recognizer (EndsIn Rounds StopsAt comesTo_many_iff endsIn_map_iff result?_many_iff)

variable {γ σ δ : Type} [Cursor γ σ] [LawfulCursor γ] [BEq σ] (r : Registry σ δ)
variable {p : Parser σ δ} {min : Nat} {c last : γ}

/-- A parser's repetition comes to an end where its rounds do, and no bound shows. -/
theorem result?_parse_many_iff {result : Except GrammarError (Outcome γ (Value σ δ))} :
    ((many p min).parse r c).result? = some result ↔
      ∃ values last, Rounds (p.parse r) c values last ∧
        EndsIn (p.parse r) last
          (if min ≤ values.length then .success (.list values) last else .failure) result := by
  have hlist (values : List (Value σ δ)) (last : γ) :
      (if min ≤ values.length then .success (.list values) last else .failure) =
        Outcome.map Value.list
          (if min ≤ values.length then .success values last else .failure) := by
    split <;> rfl
  simp only [hlist]
  constructor
  · intro h
    rw [parse_many r p min (Nat.lt_succ_self _), Recognizer.result?_action,
      Option.map_eq_some_iff] at h
    obtain ⟨inner, hinner, hresult⟩ := h
    obtain ⟨values, last, hrounds, -, hend⟩ := result?_many_iff.mp hinner
    exact ⟨values, last, hrounds, (endsIn_map_iff _ last _ _).mpr ⟨inner, hend, hresult⟩⟩
  · rintro ⟨values, last, hrounds, hend⟩
    obtain ⟨inner, hend, hresult⟩ := (endsIn_map_iff _ last _ _).mp hend
    -- Any bound above the number of symbols will do, so take one that is also above the rounds.
    have hlt : (Cursor.remaining c).length < (Cursor.remaining c).length + values.length + 1 := by
      omega
    rw [parse_many r p min hlt, Recognizer.result?_action, Option.map_eq_some_iff]
    refine ⟨inner, result?_many_iff.mpr ⟨values, last, hrounds, by omega, hend⟩, hresult⟩

theorem parse_many_success_iff {value : Value σ δ} :
    ((many p min).parse r c).result? = some (.ok (.success value last)) ↔
      ∃ values, value = .list values ∧ Rounds (p.parse r) c values last ∧
        StopsAt (p.parse r) last ∧ min ≤ values.length := by
  rw [result?_parse_many_iff]
  constructor
  · rintro ⟨values, rest, h, ⟨hstop, heq⟩ | ⟨e, -, heq⟩⟩
    · split at heq
      next hmin =>
        cases heq
        exact ⟨values, rfl, h, hstop, hmin⟩
      · cases heq
    · cases heq
  · rintro ⟨values, rfl, h, hstop, hmin⟩
    exact ⟨values, last, h, .inl ⟨hstop, by rw [if_pos hmin]⟩⟩

/-- Where a repetition has ended another one has nothing to repeat, whether or not that is enough. -/
theorem stopsAt_parse_many {value : Value σ δ}
    (h : ((many p min).parse r c).result? = some (.ok (.success value last))) :
    StopsAt ((many p min).parse r) last := by
  obtain ⟨-, -, -, hstop, -⟩ := (parse_many_success_iff r).mp h
  by_cases hmin : min ≤ 0
  · exact .inr ⟨.list [], last,
      (parse_many_success_iff r).mpr ⟨[], rfl, .nil last, hstop, hmin⟩, rfl⟩
  · exact .inl ((result?_parse_many_iff r).mpr
      ⟨[], last, .nil last, .inl ⟨hstop, by rw [List.length_nil, if_neg hmin]⟩⟩)

theorem position_ne_of_rounds {value : Value σ δ} {values : List (Value σ δ)}
    (h : Rounds (p.parse r) c (value :: values) last) :
    Cursor.position last ≠ Cursor.position c := by
  have hreads := Recognizer.ReadsUnless.iff_ensures.mp (parse_readsUnless_nullable (γ := γ) r p)
  obtain ⟨k, hk, hlen⟩ := hreads.rounds Recognizer.ReadsUnless.collects h
  rw [ne_eq, hk.position_eq_iff]
  exact Nat.ne_of_gt (Nat.lt_of_lt_of_le (Nat.succ_pos _) hlen)

/-- A repetition is not repeated more than once. -/
theorem length_le_one_of_rounds {values : List (Value σ δ)}
    (h : Rounds ((many p min).parse r) c values last) : values.length ≤ 1 := by
  cases h with
  | nil => exact Nat.zero_le 1
  | cons hp _ h =>
    cases h with
    | nil => exact Nat.le_refl 1
    | cons hp' hpos' _ =>
      -- A second round starts where the first one has stopped, so it cannot leave that position.
      obtain hfail | ⟨_, _, hstop, hpos⟩ := stopsAt_parse_many r hp
      · cases hfail.symm.trans hp'
      · cases hstop.symm.trans hp'
        exact absurd hpos hpos'

/-- To repeat a repetition is to run it once. What it collects, if anything, is the only element, so
that a minimum of two is never met. Where it collects nothing or not enough, so does the outer
repetition; and it has the errors of the inner one. -/
theorem parse_many_many (p : Parser σ δ) (m n : Nat) (c : γ) :
    (∀ value values rest,
      ((many p m).parse r c).result? = some (.ok (.success (.list (value :: values)) rest)) →
      ((many (many p m) n).parse r c).result? =
        some (.ok (if n ≤ 1 then .success (.list [.list (value :: values)]) rest else .failure))) ∧
    (((many p m).parse r c).result? = some (.ok .failure) ∨
        (∃ rest, ((many p m).parse r c).result? = some (.ok (.success (.list []) rest))) →
      ((many (many p m) n).parse r c).result? =
        some (.ok (if n = 0 then .success (.list []) c else .failure))) ∧
    (∀ e, ((many p m).parse r c).result? = some (.error e) →
      ((many (many p m) n).parse r c).result? = some (.error e)) ∧
    (∀ value rest, ((many (many p m) n).parse r c).result? = some (.ok (.success value rest)) →
      n ≤ 1 ∧ ∃ values, value = .list values ∧ values.length ≤ 1) := by
  refine ⟨fun value values rest h => ?_, fun h => ?_, fun e h => ?_, fun value rest h => ?_⟩
  · obtain ⟨_, heq, hrounds, -, -⟩ := (parse_many_success_iff r).mp h
    cases heq
    exact (result?_parse_many_iff r).mpr ⟨[.list (value :: values)], rest,
      .cons h (position_ne_of_rounds r hrounds) (.nil rest), .inl ⟨stopsAt_parse_many r h, rfl⟩⟩
  · have hstop : StopsAt ((many p m).parse r) c := by
      rcases h with h | ⟨rest, h⟩
      · exact .inl h
      · obtain ⟨_, heq, hrounds, -, -⟩ := (parse_many_success_iff r).mp h
        cases heq
        cases hrounds
        exact .inr ⟨_, _, h, rfl⟩
    refine (result?_parse_many_iff r).mpr ⟨[], c, .nil c, .inl ⟨hstop, ?_⟩⟩
    simp only [List.length_nil, Nat.le_zero]
  · exact (result?_parse_many_iff r).mpr ⟨[], c, .nil c, .inr ⟨e, h, rfl⟩⟩
  · obtain ⟨values, rfl, hrounds, -, hmin⟩ := (parse_many_success_iff r).mp h
    have hlen := length_le_one_of_rounds r hrounds
    exact ⟨Nat.le_trans hmin hlen, values, rfl, hlen⟩

end Parser

namespace Brackets

/-- Two items are all that is collected. They are not enough for three, and there is nothing to
collect at the end. -/
theorem items_many_many :
    let text := #['x', 'x', 'y']
    let item := Parser.reference grammar "item"
    let missing := Parser.reference grammar "nothing"
    let found : Value Char Unit := .list [.symbol 'x', .symbol 'x']
    ((Parser.many item 1).parse rules (SliceCursor.ofArray text)).result? =
      some (.ok (.success found (.reading text 2))) ∧
    ((Parser.many (.many item 1) 1).parse rules (SliceCursor.ofArray text)).result? =
      some (.ok (.success (.list [found]) (.reading text 2))) ∧
    ((Parser.many (.many item 1) 2).parse rules (SliceCursor.ofArray text)).result? =
      some (.ok .failure) ∧
    ((Parser.many (.many item 3) 0).parse rules (SliceCursor.ofArray text)).result? =
      some (.ok (.success (.list []) (.ofArray text))) ∧
    ((Parser.many (.many item 0) 1).parse rules (SliceCursor.reading text 2)).result? =
      some (.ok .failure) ∧
    ((Parser.many (.many missing 0) 0).parse rules (SliceCursor.ofArray text)).result? =
      some (.error (.unboundRule "nothing")) := by
  intro text item missing found
  have hfound : ((Parser.many item 1).parse rules (SliceCursor.ofArray text)).result? =
      some (.ok (.success found (.reading text 2))) := rfl
  exact ⟨hfound, (Parser.parse_many_many rules item 1 1 _).1 _ _ _ hfound,
    (Parser.parse_many_many rules item 1 2 _).1 _ _ _ hfound,
    (Parser.parse_many_many rules item 3 0 _).2.1 (.inl rfl),
    (Parser.parse_many_many rules item 0 1 _).2.1 (.inr ⟨_, rfl⟩),
    (Parser.parse_many_many rules missing 0 0 _).2.2.1 _ rfl⟩

end Brackets

end Descent
