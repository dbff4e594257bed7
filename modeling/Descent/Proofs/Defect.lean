import Descent.Cursor.Slice
import Descent.Proofs.Reachable
import Descent.Proofs.Strategy

/-!
# Defects

A grammar error names a defect: a reference without a rule or a grammar, or a selection past the
end of its sequence. The defect is there to be found among the parsers within reach, whatever the
input was. So a grammar in which none is within reach parses every input without an error.
-/

namespace Descent

variable {γ σ δ : Type}

namespace Parser

/-- The parser is at fault itself, in the way that the error says. -/
inductive Defect (r : Registry σ δ) : Parser σ δ → GrammarError → Prop
  | unbound {g : GrammarId} {name : String} : r.isLive g = true → r.isBound g name = false →
      Defect r (.reference g name) (.unboundRule name)
  | dropped {g : GrammarId} {name : String} : r.isLive g = false →
      Defect r (.reference g name) (.droppedGrammar name)
  | outOfRange {ps : List (Parser σ δ)} {index : Nat} : ps.length ≤ index →
      Defect r (.select ps index) (.noSuchElement index ps.length)

theorem defect_of_resolve {r : Registry σ δ} {g : GrammarId} {name : String} {e : GrammarError}
    (h : r.resolve g name = .error e) : Defect r (.reference g name) e := by
  have hbound : r.isBound g name = false := by
    simp [Registry.isBound, Registry.binding?, h, Except.toOption]
  unfold Registry.resolve at h
  split at h
  next htable =>
    cases h
    exact .dropped (by simp [Registry.isLive, htable])
  next table htable =>
    split at h
    · cases h
      exact .unbound (by simp [Registry.isLive, htable]) hbound
    · cases h

end Parser

namespace Strategy

variable {Q : Parser σ δ → Prop} {E : GrammarError → Prop} {answers : List (Answer γ σ δ)}

/-- After these answers a call goes to a parser of `Q`, an error in answer to it is the end, and an
end in an error is one of `E` or has been answered before. -/
structure StrictAt (Q : Parser σ δ → Prop) (E : GrammarError → Prop) (S : Strategy γ σ δ)
    (answers : List (Answer γ σ δ)) : Prop where
  calls {p : Parser σ δ} {c : γ} : S answers = .call p c → Q p
  aborts {p : Parser σ δ} {c : γ} (e : GrammarError) : S answers = .call p c →
    S (answers ++ [.error e]) = .stop (.error e)
  errors {e : GrammarError} : S answers = .stop (.error e) → E e ∨ .error e ∈ answers

namespace StrictAt

theorem stop {a : Answer γ σ δ} (h : ∀ e, a = .error e → E e) :
    StrictAt Q E (.stop a) answers where
  calls hcall := by cases hcall
  aborts _ hcall := by cases hcall
  errors hstop := .inl (h _ (Move.stop.inj hstop))

theorem ok {o : Outcome γ (Value σ δ)} : StrictAt Q E (.stop (.ok o)) answers :=
  stop fun _ h => by cases h

theorem call {p : Parser σ δ} {c : γ} {next : Outcome γ (Value σ δ) → Strategy γ σ δ} (hp : Q p)
    (h : ∀ o later, answers = .ok o :: later → StrictAt Q E (next o) later) :
    StrictAt Q E (.call p c next) answers := by
  rcases answers with _ | ⟨e | o, later⟩
  case nil => exact ⟨fun hcall => (Move.call.inj hcall).1 ▸ hp, fun _ _ => rfl, nofun⟩
  case cons.error =>
    refine ⟨nofun, nofun, fun hstop => .inr ?_⟩
    obtain rfl := Except.error.inj (Move.stop.inj hstop)
    exact List.mem_cons_self
  case cons.ok =>
    have hlater := h o later rfl
    exact ⟨hlater.calls, hlater.aborts, fun hstop =>
      (hlater.errors hstop).imp_right (List.mem_cons_of_mem _)⟩

theorem inTurn {finish : List (Value σ δ) → γ → Answer γ σ δ} {ps : List (Parser σ δ)}
    (hps : ∀ p ∈ ps, Q p) (values : List (Value σ δ))
    (hfinish : ∀ vs rest e, vs.length = values.length + ps.length → finish vs rest = .error e →
      E e) (c : γ) : StrictAt Q E (.inTurn finish ps values c) answers := by
  induction ps generalizing values c answers with
  | nil => exact stop fun e he => hfinish values c e rfl he
  | cons p ps ih =>
    apply call (hps p List.mem_cons_self)
    intro o later _
    cases o with
    | success value rest =>
      apply ih (fun q hq => hps q (List.mem_cons_of_mem p hq))
      intro vs rest e hlength
      apply hfinish
      rw [hlength, List.length_append, List.length_singleton, List.length_cons]
      omega
    | failure => exact ok

theorem firstOf {ps : List (Parser σ δ)} (hps : ∀ p ∈ ps, Q p) (c : γ) :
    StrictAt Q E (.firstOf ps c) answers := by
  induction ps generalizing answers with
  | nil => exact ok
  | cons p ps ih =>
    apply call (hps p List.mem_cons_self)
    intro o later _
    cases o with
    | success value rest => exact ok
    | failure => exact ih fun q hq => hps q (List.mem_cons_of_mem p hq)

theorem repeatedly [Cursor γ σ] {finish : List (Value σ δ) → γ → Answer γ σ δ} {p : Parser σ δ}
    (hp : Q p) (hfinish : ∀ vs rest e, finish vs rest = .error e → E e)
    (values : List (Value σ δ)) (c : γ) :
    StrictAt Q E (.repeatedly finish p values c) answers := by
  induction answers generalizing values c with
  | nil =>
    rw [repeatedly_eq_call]
    exact call hp fun _ _ h => by cases h
  | cons a answers ih =>
    rw [repeatedly_eq_call]
    apply call hp
    intro o later heq
    cases heq
    cases o with
    | success value rest =>
      dsimp only
      split
      · exact stop (hfinish values c)
      · exact ih (values ++ [value]) rest
    | failure => exact stop (hfinish values c)

end StrictAt

end Strategy

namespace Parser

open Strategy (StrictAt)

variable [Cursor γ σ] [BEq σ] (r : Registry σ δ)

/-- A parser calls nothing but what is within reach, ends on the first error that it is answered,
and raises none of its own without being at fault. -/
theorem strategy_strictAt (p : Parser σ δ) (c : γ) (answers : List (Answer γ σ δ)) :
    StrictAt (Reachable r p) (Defect r p) (p.strategy r c) answers := by
  have hpart (q : Parser σ δ) (hq : q ∈ p.parts) : Reachable r p q := .part .self hq
  cases p with
  | oneOf | anySymbol | endOfInput => exact .ok
  | sequence ps => exact .inTurn hpart [] (fun _ _ _ _ h => by cases h) c
  | select ps index =>
    have hparts : ∀ q ∈ ps, Reachable r (.select ps index) q := hpart
    refine StrictAt.inTurn hparts [] ?_ c
    intro values rest e hlength he
    split at he
    · cases he
    next hnone =>
      cases he
      rw [List.getElem?_eq_none_iff, hlength] at hnone
      exact .outOfRange (by simpa using hnone)
  | pair p q =>
    apply StrictAt.call (hpart p (by simp [parts]))
    intro o later _
    cases o with
    | success first rest => exact .call (hpart q (by simp [parts])) fun _ _ _ => .ok
    | failure => exact .ok
  | choice ps => exact .firstOf hpart c
  | optional p | optionalOr p =>
    apply StrictAt.call (hpart p (by simp [parts]))
    intro o later _
    cases o <;> exact .ok
  | many p min => exact .repeatedly (hpart p (by simp [parts])) (fun _ _ _ h => by cases h) [] c
  | action p f => exact .call (hpart p (by simp [parts])) fun _ _ _ => .ok
  | reference g name =>
    simp only [strategy]
    cases hresolve : r.resolve g name with
    | error e =>
      apply StrictAt.stop
      intro e' he'
      cases he'
      exact defect_of_resolve hresolve
    | ok body => exact .call (.body .self hresolve) fun _ _ _ => .ok
  | leaf x => exact x.elim

theorem recognizer_error_defect (budget : Nat) {p : Parser σ δ} {c : γ} {e : GrammarError}
    (h : (recognizer r budget p c).result? = some (.error e)) :
    ∃ q, Reachable r p q ∧ Defect r q e := by
  induction budget generalizing p c with
  | zero => cases h
  | succ budget ih =>
    obtain ⟨answers, hfollows, hstop⟩ := exists_answers_of_recognizer r h
    rcases (strategy_strictAt r p c answers).errors hstop with hdefect | hmem
    · exact ⟨p, .self, hdefect⟩
    · obtain ⟨before, q, d, hcall, hq⟩ := hfollows.exists_call hmem
      obtain ⟨q', hreach, hdefect⟩ := ih hq
      exact ⟨q', ((strategy_strictAt r p c before).calls hcall).trans hreach, hdefect⟩

/-- Every grammar error names a defect within reach, and where none is within reach no input ends in
an error. -/
theorem parse_error_defect (p : Parser σ δ) :
    (∀ (c : γ) (e : GrammarError), (p.parse r c).result? = some (.error e) →
      ∃ q, Reachable r p q ∧ Defect r q e) ∧
    ((∀ q e, Reachable r p q → ¬ Defect r q e) →
      ∀ (c : γ) (e : GrammarError), (p.parse r c).result? ≠ some (.error e)) := by
  have hdefect (c : γ) (e : GrammarError) (h : (p.parse r c).result? = some (.error e)) :=
    recognizer_error_defect r (budget r p c) h
  refine ⟨hdefect, fun hnone c e h => ?_⟩
  obtain ⟨q, hreach, hq⟩ := hdefect c e h
  exact hnone q e hreach hq

end Parser

namespace Brackets

open Descent.Parser (Reachable Defect)

/-- The rule of items without the rule of an item. -/
def incomplete : Registry Char Unit := Registry.empty.create.2.bind grammar "items" items

theorem not_defect_of_reachable {q : Parser Char Unit} {e : GrammarError}
    (h : Reachable rules (.reference grammar "items") q) : ¬ Defect rules q e := by
  intro hdefect
  cases hdefect with
  | unbound _ hbound =>
    obtain ⟨rfl, rfl | rfl⟩ := eq_of_reachable_reference h <;> cases hbound
  | dropped hlive =>
    obtain ⟨rfl, -⟩ := eq_of_reachable_reference h
    cases hlive
  | outOfRange => exact not_reachable_select h

/-- Without the rule of an item there is an error and something to blame for it; with both rules
there is neither. -/
theorem items_error_defect :
    ((Parser.reference grammar "items").parse incomplete (SliceCursor.ofArray input)).result? =
      some (.error (.unboundRule "item")) ∧
    (∃ q, Reachable incomplete (.reference grammar "items") q ∧
      Defect incomplete q (.unboundRule "item")) ∧
    (∀ q e, Reachable rules (.reference grammar "items") q → ¬ Defect rules q e) ∧
    ∀ (c : SliceCursor Char) (e : GrammarError),
      ((Parser.reference grammar "items").parse rules c).result? ≠ some (.error e) := by
  have herror : ((Parser.reference grammar "items").parse incomplete
      (SliceCursor.ofArray input)).result? = some (.error (.unboundRule "item")) := rfl
  have hsound (q : Parser Char Unit) (e : GrammarError)
      (h : Reachable rules (.reference grammar "items") q) : ¬ Defect rules q e :=
    not_defect_of_reachable h
  exact ⟨herror, (Parser.parse_error_defect incomplete _).1 _ _ herror, hsound,
    (Parser.parse_error_defect rules _).2 hsound⟩

end Brackets

end Descent
