import Descent.Cursor.Slice
import Descent.Proofs.Result

/-!
# Rounds of a repetition

A repetition goes from match to match as long as each of them leaves another position than it found.
Where this comes to an end, the repetition comes to what it has collected; where it does not, the
repetition goes on without end. Nothing is asked of the recognizer that is repeated: its matches may
lead anywhere, also back.
-/

namespace Descent

namespace Recognizer

variable {γ σ α : Type}

/-- The result under every bound on the rounds that is large enough. -/
def ComesTo (p : Nat → Recognizer γ α) (c : γ) (result : Except GrammarError (Outcome γ α)) :
    Prop :=
  ∃ enough, ∀ budget, enough ≤ budget → (p budget c).result? = some result

variable [Cursor γ σ]

/-- Matches in a row that lead from one cursor to another, with their values. Each of them leaves
another position than it found. -/
inductive Rounds (p : Recognizer γ α) : γ → List α → γ → Prop
  | nil (c : γ) : Rounds p c [] c
  | cons {c rest last : γ} {value : α} {values : List α} :
      (p c).result? = some (.ok (.success value rest)) →
      Cursor.position rest ≠ Cursor.position c →
      Rounds p rest values last → Rounds p c (value :: values) last

/-- Every match leaves another position than it found. -/
def Progresses (p : Recognizer γ α) : Prop :=
  ∀ c value rest, (p c).result? = some (.ok (.success value rest)) →
    Cursor.position rest ≠ Cursor.position c

/-- There is no match, or one that leaves the position as it was. -/
def StopsAt (p : Recognizer γ α) (c : γ) : Prop :=
  (p c).result? = some (.ok .failure) ∨
    ∃ value rest, (p c).result? = some (.ok (.success value rest)) ∧
      Cursor.position rest = Cursor.position c

/-- What a repetition comes to where its rounds lead no further: to what they are worth, or to the
error of the recognizer that it repeats. -/
def EndsIn {β : Type} (p : Recognizer γ α) (last : γ) (worth : β) (result : Except GrammarError β) :
    Prop :=
  StopsAt p last ∧ result = .ok worth ∨
    ∃ e, (p last).result? = some (.error e) ∧ result = .error e

variable {p : Recognizer γ α} {c last : γ} {values : List α}

theorem StopsAt.result?_row (h : StopsAt p c) (budget found : Nat) :
    (p.row (budget + 1) found c).result? = some (.ok ([], c)) := by
  rw [result?_row_succ]
  obtain hp | ⟨value, rest, hp, hpos⟩ := h
  · rw [hp]
  · rw [hp]
    exact if_pos hpos

namespace Rounds

/-- Rounds are made before the rest of the row. -/
theorem result?_row (h : Rounds p c values last) (budget found : Nat) :
    (p.row (values.length + budget) found c).result? =
      (p.row budget 0 last).result?.map (Except.map (Prod.map (values ++ ·) id)) := by
  induction h generalizing found with
  | nil c =>
    rw [List.length_nil, Nat.zero_add, result?_row_found p budget found 0]
    rcases (p.row budget 0 c).result? with _ | _ | _ <;> rfl
  | @cons c rest last value values hp hpos _ ih =>
    rw [List.length_cons, Nat.add_right_comm, result?_row_succ, hp]
    dsimp only
    rw [if_neg hpos, ih]
    rcases (p.row budget 0 last).result? with _ | _ | _ <;> rfl

/-- No more rounds than the bound are made. -/
theorem result?_row_of_le (h : Rounds p c values last) {budget : Nat}
    (hbudget : budget ≤ values.length) (found : Nat) :
    (p.row budget found c).result? = none := by
  induction h generalizing budget found with
  | nil c =>
    obtain rfl := Nat.le_zero.mp hbudget
    rfl
  | @cons c rest last value values hp hpos _ ih =>
    cases budget with
    | zero => rfl
    | succ budget =>
      rw [result?_row_succ, hp]
      dsimp only
      rw [if_neg hpos, ih (Nat.le_of_succ_le_succ hbudget), Option.map_none]

/-- There are as many rounds as there are links in a chain of matches. -/
theorem of_chain {cs : Nat → γ}
    (h : ∀ i, ∃ value, (p (cs i)).result? = some (.ok (.success value (cs (i + 1)))) ∧
      Cursor.position (cs (i + 1)) ≠ Cursor.position (cs i)) (k i : Nat) :
    ∃ values, values.length = k ∧ Rounds p (cs i) values (cs (i + k)) := by
  induction k generalizing i with
  | zero => exact ⟨[], rfl, .nil _⟩
  | succ k ih =>
    obtain ⟨value, hp, hpos⟩ := h i
    obtain ⟨values, hlen, hvalues⟩ := ih (i + 1)
    refine ⟨value :: values, by rw [List.length_cons, hlen], .cons hp hpos ?_⟩
    rwa [Nat.add_right_comm, Nat.add_assoc] at hvalues

end Rounds

theorem endsIn_map_iff {β β' : Type} (p : Recognizer γ α) (last : γ) (worth : β) (f : β → β')
    {result : Except GrammarError β'} :
    EndsIn p last (f worth) result ↔
      ∃ inner, EndsIn p last worth inner ∧ inner.map f = result := by
  constructor
  · rintro (⟨hstop, rfl⟩ | ⟨e, he, rfl⟩)
    · exact ⟨.ok worth, .inl ⟨hstop, rfl⟩, rfl⟩
    · exact ⟨.error e, .inr ⟨e, he, rfl⟩, rfl⟩
  · rintro ⟨_, ⟨hstop, rfl⟩ | ⟨e, he, rfl⟩, rfl⟩
    · exact .inl ⟨hstop, rfl⟩
    · exact .inr ⟨e, he, rfl⟩

/-- A row is over where its rounds come to an end. -/
theorem result?_row_iff {budget found : Nat} {result : Except GrammarError (List α × γ)} :
    (p.row budget found c).result? = some result ↔
      ∃ values last, Rounds p c values last ∧ values.length < budget ∧
        EndsIn p last (values, last) result := by
  constructor
  · intro h
    -- A row without a bound left has no result, so every result is that of an end behind its rounds.
    induction budget generalizing found c result with
    | zero => cases h
    | succ budget ih =>
      rw [result?_row_succ] at h
      split at h
      · cases h
      next e hp =>
        cases h
        exact ⟨[], c, .nil c, Nat.succ_pos budget, .inr ⟨e, hp, rfl⟩⟩
      next hp =>
        cases h
        exact ⟨[], c, .nil c, Nat.succ_pos budget, .inl ⟨.inl hp, rfl⟩⟩
      next value rest hp =>
        split at h
        next hpos =>
          cases h
          exact ⟨[], c, .nil c, Nat.succ_pos budget, .inl ⟨.inr ⟨value, rest, hp, hpos⟩, rfl⟩⟩
        next hpos =>
          obtain ⟨tail, htail, rfl⟩ := Option.map_eq_some_iff.mp h
          obtain ⟨values, last, hvalues, hlt, hend⟩ := ih htail
          refine ⟨value :: values, last, .cons hp hpos hvalues, Nat.succ_lt_succ hlt, ?_⟩
          rcases hend with ⟨hstop, rfl⟩ | ⟨e, he, rfl⟩
          · exact .inl ⟨hstop, rfl⟩
          · exact .inr ⟨e, he, rfl⟩
  · rintro ⟨values, last, h, hlt, hend⟩
    obtain ⟨more, rfl⟩ := Nat.exists_eq_add_of_lt hlt
    rw [Nat.add_assoc, h.result?_row]
    rcases hend with ⟨hstop, rfl⟩ | ⟨e, he, rfl⟩
    · rw [hstop.result?_row]
      simp [Except.map]
    · rw [result?_row_succ, he]
      rfl

section Many

variable {min : Nat} {result : Except GrammarError (Outcome γ (List α))}

theorem result?_many_iff {budget : Nat} :
    (many budget p min c).result? = some result ↔
      ∃ values last, Rounds p c values last ∧ values.length < budget ∧
        EndsIn p last (if min ≤ values.length then .success values last else .failure) result := by
  let worth (v : List α × γ) : Outcome γ (List α) :=
    if min ≤ v.1.length then .success v.1 v.2 else .failure
  rw [result?_many, Option.map_eq_some_iff]
  constructor
  · rintro ⟨row, hrow, hresult⟩
    obtain ⟨values, last, h, hlt, hend⟩ := result?_row_iff.mp hrow
    exact ⟨values, last, h, hlt, (endsIn_map_iff p last (values, last) worth).mpr
      ⟨row, hend, hresult⟩⟩
  · rintro ⟨values, last, h, hlt, hend⟩
    obtain ⟨row, hrow, hresult⟩ := (endsIn_map_iff p last (values, last) worth).mp hend
    exact ⟨row, result?_row_iff.mpr ⟨values, last, h, hlt, hrow⟩, hresult⟩

/-- One bound more than there are rounds is large enough. -/
theorem comesTo_many_iff :
    ComesTo (many · p min) c result ↔
      ∃ values last, Rounds p c values last ∧
        EndsIn p last (if min ≤ values.length then .success values last else .failure) result := by
  constructor
  · rintro ⟨enough, h⟩
    obtain ⟨values, last, hrounds, -, hend⟩ := result?_many_iff.mp (h enough (Nat.le_refl enough))
    exact ⟨values, last, hrounds, hend⟩
  · rintro ⟨values, last, hrounds, hend⟩
    refine ⟨values.length + 1, fun budget hbudget => ?_⟩
    exact result?_many_iff.mpr ⟨values, last, hrounds, hbudget, hend⟩

theorem Rounds.many_eq_unfinished (h : Rounds p c values last) {budget : Nat}
    (hbudget : budget ≤ values.length) : many budget p min c = .unfinished := by
  rw [← Run.result?_eq_none_iff, result?_many, h.result?_row_of_le hbudget, Option.map_none]

/-- A repetition does not end where a run of what it repeats does not. -/
theorem Rounds.many_eq_unfinished_of_last (h : Rounds p c values last)
    (hlast : p last = .unfinished) (budget : Nat) : many budget p min c = .unfinished := by
  rcases Nat.lt_or_ge values.length budget with hlt | hle
  · obtain ⟨more, rfl⟩ := Nat.exists_eq_add_of_lt hlt
    rw [← Run.result?_eq_none_iff, result?_many, Nat.add_assoc, h.result?_row, result?_row_succ,
      hlast]
    rfl
  · exact h.many_eq_unfinished hle

theorem many_success_iff {budget : Nat} :
    (many budget p min c).result? = some (.ok (.success values last)) ↔
      Rounds p c values last ∧ values.length < budget ∧ StopsAt p last ∧ min ≤ values.length := by
  rw [result?_many_iff]
  constructor
  · rintro ⟨found, rest, h, hlt, ⟨hstop, heq⟩ | ⟨e, -, heq⟩⟩
    · split at heq
      next hmin =>
        cases heq
        exact ⟨h, hlt, hstop, hmin⟩
      · cases heq
    · cases heq
  · rintro ⟨h, hlt, hstop, hmin⟩
    exact ⟨values, last, h, hlt, .inl ⟨hstop, by rw [if_pos hmin]⟩⟩

end Many

/-- What a repetition comes to, whatever it repeats. Behind the last round it comes to the error of
what it repeats, if there is one; where there is no match that leaves another position, it comes to
all values and the cursor behind them, provided they are enough; and it does not end where that run
does not, nor when there are rounds without end. So the minimum is nothing but a condition on how
many values there are without it. -/
theorem many_comesTo (p : Recognizer γ α) (min : Nat) (c : γ) :
    (∀ values last, Rounds p c values last →
      (∀ e, (p last).result? = some (.error e) → ComesTo (many · p min) c (.error e)) ∧
      (StopsAt p last → ComesTo (many · p min) c
        (.ok (if min ≤ values.length then .success values last else .failure))) ∧
      (p last = .unfinished → ∀ budget, many budget p min c = .unfinished)) ∧
    (∀ cs : Nat → γ, cs 0 = c →
      (∀ i, ∃ value, (p (cs i)).result? = some (.ok (.success value (cs (i + 1)))) ∧
        Cursor.position (cs (i + 1)) ≠ Cursor.position (cs i)) →
      ∀ budget, many budget p min c = .unfinished) ∧
    (∀ values rest, ComesTo (many · p min) c (.ok (.success values rest)) ↔
      ComesTo (many · p 0) c (.ok (.success values rest)) ∧ min ≤ values.length) := by
  refine ⟨fun values last h => ⟨fun e he => ?_, fun hstop => ?_, fun hlast => ?_⟩, ?_, ?_⟩
  · exact comesTo_many_iff.mpr ⟨values, last, h, .inr ⟨e, he, rfl⟩⟩
  · exact comesTo_many_iff.mpr ⟨values, last, h, .inl ⟨hstop, rfl⟩⟩
  · exact h.many_eq_unfinished_of_last hlast
  · rintro cs rfl hcs budget
    -- A chain without end has as many rounds as any bound allows.
    obtain ⟨values, hlen, hvalues⟩ := Rounds.of_chain hcs budget 0
    exact hvalues.many_eq_unfinished (Nat.le_of_eq hlen.symm)
  · intro values rest
    constructor
    · rintro ⟨enough, h⟩
      obtain ⟨-, -, -, hmin⟩ := many_success_iff.mp (h enough (Nat.le_refl enough))
      refine ⟨⟨enough, fun budget hbudget => ?_⟩, hmin⟩
      obtain ⟨hrounds, hlt, hstop, -⟩ := many_success_iff.mp (h budget hbudget)
      exact many_success_iff.mpr ⟨hrounds, hlt, hstop, Nat.zero_le _⟩
    · rintro ⟨⟨enough, h⟩, hmin⟩
      refine ⟨enough, fun budget hbudget => ?_⟩
      obtain ⟨hrounds, hlt, hstop, -⟩ := many_success_iff.mp (h budget hbudget)
      exact many_success_iff.mpr ⟨hrounds, hlt, hstop, hmin⟩

end Recognizer

namespace Arrows

/-- Goes where the arrow at the cursor points. At other symbols it may stay, report an error or run
on without end. -/
def follow : Recognizer (SliceCursor Char) Char := fun c =>
  match Cursor.current c, c with
  | some '<', .reading data index => Recognizer.succeed '<' (.reading data (index - 1))
  | some '>', .reading data index => Recognizer.succeed '>' (.reading data (index + 1))
  | some '=', _ => Recognizer.succeed '=' c
  | some '!', _ => .fail (.unboundRule "!")
  | some '?', _ => .unfinished
  | _, _ => pure .failure

open Recognizer (ComesTo Rounds StopsAt many)

/-- Two arrows lead back to the start, where the next match stays; an error and a run without end
are met behind one arrow; and between two arrows there is no end. -/
theorem follow_many_comesTo :
    ComesTo (many · follow 2) (.reading #['=', '<', '<'] 2)
      (.ok (.success ['<', '<'] (.reading #['=', '<', '<'] 0))) ∧
    ComesTo (many · follow 3) (.reading #['=', '<', '<'] 2) (.ok .failure) ∧
    ComesTo (many · follow 0) (.reading #['>', '!'] 0) (.error (.unboundRule "!")) ∧
    (∀ budget, many budget follow 0 (.reading #['>', '?'] 0) = .unfinished) ∧
    (∀ budget, many budget follow 0 (.reading #['>', '<'] 0) = .unfinished) := by
  have hback : Rounds follow (.reading #['=', '<', '<'] 2) ['<', '<']
      (.reading #['=', '<', '<'] 0) :=
    .cons rfl (by decide) (.cons rfl (by decide) (.nil _))
  have hstop : StopsAt follow (.reading #['=', '<', '<'] 0) := .inr ⟨_, _, rfl, rfl⟩
  have hahead (s : Char) : Rounds follow (.reading #['>', s] 0) ['>'] (.reading #['>', s] 1) :=
    .cons rfl Nat.one_ne_zero (.nil _)
  refine ⟨((Recognizer.many_comesTo follow 2 _).1 _ _ hback).2.1 hstop,
    ((Recognizer.many_comesTo follow 3 _).1 _ _ hback).2.1 hstop,
    ((Recognizer.many_comesTo follow 0 _).1 _ _ (hahead '!')).1 _ rfl,
    ((Recognizer.many_comesTo follow 0 _).1 _ _ (hahead '?')).2.2 rfl,
    (Recognizer.many_comesTo follow 0 _).2.1 (fun i => .reading #['>', '<'] (i % 2)) rfl ?_⟩
  intro i
  rcases Nat.mod_two_eq_zero_or_one i with hi | hi
  · rw [Nat.add_mod, hi]
    exact ⟨'>', rfl, by decide⟩
  · rw [Nat.add_mod, hi]
    exact ⟨'<', rfl, by decide⟩

end Arrows

end Descent
