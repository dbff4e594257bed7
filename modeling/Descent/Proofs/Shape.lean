import Descent.Cursor.Slice
import Descent.Grammar.Bindings
import Descent.Proofs.Verdict

/-!
# The shape of a parser decides

What a parser recognizes does not hang on what it computes. Parsers of one shape, over rules of one
shape, may have any actions, any values at the end of the input and any sentinels: on every cursor
they give one verdict and report the same events.
-/

namespace Descent

variable {γ σ δ δ' α β : Type}

/-- Where neither run gets further than the other one, the verdicts are the same. -/
theorem Run.verdict_eq_of_refines {V : α → β → Prop} {W : β → α → Prop} {x : Run (Outcome γ α)}
    {y : Run (Outcome γ β)} (h : Run.Refines Eq (Outcome.Matches V Eq) x y)
    (h' : Run.Refines Eq (Outcome.Matches W Eq) y x) :
    x.verdict = y.verdict ∧ x.events = y.events := by
  cases h with
  | unfinished =>
    cases h' with
    | unfinished => exact ⟨rfl, rfl⟩
  | error e hevents =>
    rw [List.forall₂_eq_eq_eq] at hevents
    exact ⟨rfl, hevents⟩
  | value hevents ho =>
    rw [List.forall₂_eq_eq_eq] at hevents
    refine ⟨?_, hevents⟩
    cases ho with
    | failure => rfl
    | success _ hrest => rw [hrest]; rfl

/-- The parsers differ in nothing but actions, values at the end of the input, sentinels, and the
identities of grammars, which `G` matches up. -/
inductive Parser.SameShape (G : GrammarId → GrammarId → Prop) :
    Parser σ δ → Parser σ δ' → Prop
  | oneOf (symbols : List σ) : SameShape G (.oneOf symbols) (.oneOf symbols)
  | anySymbol : SameShape G .anySymbol .anySymbol
  | endOfInput (v : Value σ δ) (v' : Value σ δ') : SameShape G (.endOfInput v) (.endOfInput v')
  | sequence {ps : List (Parser σ δ)} {ps' : List (Parser σ δ')} :
      List.Forall₂ (SameShape G) ps ps' → SameShape G (.sequence ps) (.sequence ps')
  | select {ps : List (Parser σ δ)} {ps' : List (Parser σ δ')} (index : Nat) :
      List.Forall₂ (SameShape G) ps ps' → SameShape G (.select ps index) (.select ps' index)
  | pair {p q : Parser σ δ} {p' q' : Parser σ δ'} :
      SameShape G p p' → SameShape G q q' → SameShape G (.pair p q) (.pair p' q')
  | choice {ps : List (Parser σ δ)} {ps' : List (Parser σ δ')} :
      List.Forall₂ (SameShape G) ps ps' → SameShape G (.choice ps) (.choice ps')
  | optional {p : Parser σ δ} {p' : Parser σ δ'} :
      SameShape G p p' → SameShape G (.optional p) (.optional p')
  | optionalOr {p : Parser σ δ} {p' : Parser σ δ'} (v : Value σ δ) (v' : Value σ δ') :
      SameShape G p p' → SameShape G (.optionalOr p v) (.optionalOr p' v')
  | many {p : Parser σ δ} {p' : Parser σ δ'} (min : Nat) :
      SameShape G p p' → SameShape G (.many p min) (.many p' min)
  | action {p : Parser σ δ} {p' : Parser σ δ'} (f : Value σ δ → Value σ δ)
      (f' : Value σ δ' → Value σ δ') :
      SameShape G p p' → SameShape G (.action p f) (.action p' f')
  | reference {g g' : GrammarId} (name : String) :
      G g g' → SameShape G (.reference g name) (.reference g' name)

/-- Grammars that `G` matches up bind the same names, to parsers of one shape, or both bind none
because they are dropped. -/
def Registry.SameShape (G : GrammarId → GrammarId → Prop) (r : Registry σ δ)
    (r' : Registry σ δ') : Prop :=
  ∀ g g', G g g' → ∀ name, Parser.Finds (Parser.SameShape G) (r.resolve g name) (r'.resolve g' name)

/-- Registries stay of one shape when parsers of one shape are bound in both. -/
theorem Registry.SameShape.bind {r : Registry σ δ} {r' : Registry σ δ'} {g : GrammarId}
    {p : Parser σ δ} {p' : Parser σ δ'} (h : r.SameShape Eq r') (hlive : r.isLive g = true)
    (hlive' : r'.isLive g = true) (name : String) (hp : p.SameShape Eq p') :
    (r.bind g name p).SameShape Eq (r'.bind g name p') := by
  rintro g' _ rfl name'
  by_cases hg : g' = g
  · subst hg
    rw [resolve_bind_self r hlive, resolve_bind_self r' hlive']
    by_cases hname : name' = name
    · rw [if_pos hname, if_pos hname]
      exact .body hp
    · rw [if_neg hname, if_neg hname]
      exact h g' g' rfl name'
  · rw [resolve_bind_of_ne r hg, resolve_bind_of_ne r' hg]
    exact h g' g' rfl name'

theorem Value.corresponds_any {R : σ → σ → Prop} :
    Corresponds R (fun (_ : Value σ δ) (_ : Value σ δ') => True) where
  symbol _ := trivial
  absent := trivial
  present _ := trivial
  pair _ _ := trivial
  list _ := trivial

namespace Parser

open Recognizer (Refines)

variable [BEq σ] {G : GrammarId → GrammarId → Prop} {r : Registry σ δ} {r' : Registry σ δ'}
variable {p : Parser σ δ} {p' : Parser σ δ'}

theorem SameShape.congruent (hr : r.SameShape G r') (h : SameShape G p p') :
    Congruent r r' Eq (fun _ _ => True) (SameShape G) p p' := by
  cases h with
  | oneOf symbols => exact .oneOf fun s s' hs => by rw [hs]
  | anySymbol => exact .anySymbol
  | endOfInput => exact .endOfInput trivial
  | sequence hps => exact .sequence hps
  | select index hps => exact .select index hps
  | pair hp hq => exact .pair hp hq
  | choice hps => exact .choice hps
  | optional hp => exact .optional hp
  | optionalOr _ _ hp => exact .optionalOr hp trivial
  | many min hp => exact .many min hp
  | action _ _ hp => exact .action hp fun _ _ _ => trivial
  | reference name hg => exact .reference (hr _ _ hg name)

variable [Cursor γ σ] [LawfulCursor γ]

/-- Values never influence recognition. -/
theorem parse_verdict_eq_of_sameShape (hr : r.SameShape G r') (hp : p.SameShape G p') (c : γ) :
    (p.parse r c).verdict = (p'.parse r' c).verdict ∧
      (p.parse r c).events = (p'.parse r' c).events := by
  have hS : Lockstep.Closed (fun _ : γ => True) := fun _ _ _ => trivial
  let n := max (budget r p c) (budget r' p' c)
  have hright : Refines (.within hS) (fun _ _ => True) (recognizer r n p) (recognizer r' n p') :=
    recognizer_refines_of_congruent (Lockstep.within_reads hS) Value.corresponds_any
      (fun q q' hq => hq.congruent hr) (Nat.le_refl n) hp
  have hleft : Refines (.within hS) (fun _ _ => True) (recognizer r' n p') (recognizer r n p) :=
    recognizer_refines_of_congruent (Lockstep.within_reads hS) Value.corresponds_any
      (fun q' q hq => (SameShape.congruent hr hq).symm fun _ _ => Eq.symm) (Nat.le_refl n)
      (T := flip (SameShape G)) hp
  rw [← recognizer_eq_parse r (Nat.le_max_left _ (budget r' p' c)),
    ← recognizer_eq_parse r' (Nat.le_max_right (budget r p c) _)]
  exact Run.verdict_eq_of_refines (hright.matches_at trivial) (hleft.matches_at trivial)

end Parser

namespace Layers

variable (f : Value Char δ → Value Char δ) (bare last : Value Char δ)

def grammar : GrammarId := ⟨0⟩

/-- Brackets around brackets, with a letter in the middle or nothing. -/
def layer : Parser Char δ :=
  .choice
    [.action (.sequence [.symbol '(', .reference grammar "layer", .symbol ')']) f,
      .optionalOr (.symbol 'x') bare]

def rules : Registry Char δ := Registry.empty.create.2.bind grammar "layer" (layer f bare)

/-- Layers and then the end of the input. -/
def whole : Parser Char δ := .sequence [.reference grammar "layer", .endOfInput last]

variable (f' : Value Char δ' → Value Char δ') (bare' last' : Value Char δ')

theorem layer_sameShape : (layer f bare).SameShape Eq (layer f' bare') :=
  .choice (.cons (.action f f' (.sequence (.cons (.oneOf ['(']) (.cons (.reference "layer" rfl)
    (.cons (.oneOf [')']) .nil))))) (.cons (.optionalOr bare bare' (.oneOf ['x'])) .nil))

theorem whole_sameShape : (whole last).SameShape Eq (whole last') :=
  .sequence (.cons (.reference "layer" rfl) (.cons (.endOfInput last last') .nil))

theorem rules_sameShape : (rules f bare).SameShape Eq (rules f' bare') := by
  refine Registry.SameShape.bind ?_ rfl rfl "layer" (layer_sameShape f bare f' bare')
  rintro g _ rfl name
  by_cases hg : g = grammar
  · subst hg
    exact .error (.unboundRule name)
  · rw [Registry.resolve_create_of_ne _ hg, Registry.resolve_create_of_ne _ hg]
    exact .error (.droppedGrammar name)

/-- The number of layers, from the number of those within. -/
def deeper : Value Char Nat → Value Char Nat
  | .list [_, .datum depth, _] => .datum (depth + 1)
  | value => value

/-- Two layers around nothing. -/
def input : Array Char := #['(', '(', ')', ')']

/-- To count layers or to make nothing of them is all the same to the verdict. -/
theorem whole_verdict_eq_of_sameShape :
    (rules deeper (.datum 0)).SameShape Eq (rules (fun _ => (.unit : Value Char Unit)) .absent) ∧
    (whole (.datum 0)).SameShape Eq (whole (.unit : Value Char Unit)) ∧
    ((whole (.datum 0)).parse (rules deeper (.datum 0)) (SliceCursor.ofArray input)).verdict =
      .accept (.ended input) ∧
    ((whole (.unit : Value Char Unit)).parse (rules (fun _ => .unit) .absent)
      (SliceCursor.ofArray input)).verdict = .accept (.ended input) := by
  have hr := rules_sameShape deeper (.datum 0) (fun _ => (.unit : Value Char Unit)) .absent
  have hp := whole_sameShape (.datum 0) (.unit : Value Char Unit)
  have haccept : ((whole (.datum 0)).parse (rules deeper (.datum 0))
      (SliceCursor.ofArray input)).verdict = .accept (.ended input) := rfl
  refine ⟨hr, hp, haccept, ?_⟩
  rw [← (Parser.parse_verdict_eq_of_sameShape hr hp (SliceCursor.ofArray input)).1]
  exact haccept

end Layers

end Descent
