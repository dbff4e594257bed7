import Descent.Grammar.Brackets

/-!
# Parsers within reach

The parsers that a run can come to, from part to part and through references to the bodies that
they find. What holds of all of them holds throughout a run, however deep it goes.
-/

namespace Descent

namespace Parser

variable {σ δ : Type}

/-- The parsers that a run can come to: parts of others, and what references find. -/
inductive Reachable (r : Registry σ δ) (p : Parser σ δ) : Parser σ δ → Prop
  | self : Reachable r p p
  | part {q q' : Parser σ δ} : Reachable r p q → q' ∈ q.parts → Reachable r p q'
  | body {g : GrammarId} {name : String} {q : Parser σ δ} :
      Reachable r p (.reference g name) → r.resolve g name = .ok q → Reachable r p q

theorem Reachable.trans {r : Registry σ δ} {p q q' : Parser σ δ} (h : Reachable r p q)
    (h' : Reachable r q q') : Reachable r p q' := by
  induction h' with
  | self => exact h
  | part _ hmem ih => exact .part ih hmem
  | body _ hres ih => exact .body ih hres

/-- A list that has a parser, the parts of its parsers and the bodies of all rules has whatever
the parser can come to. -/
theorem Reachable.mem_of_closed {r : Registry σ δ} {p q : Parser σ δ} {qs : List (Parser σ δ)}
    (h : Reachable r p q) (hp : p ∈ qs) (hparts : ∀ q ∈ qs, q.parts ⊆ qs)
    (hbody : ∀ g name body, r.resolve g name = .ok body → body ∈ qs) : q ∈ qs := by
  induction h with
  | self => exact hp
  | part _ hmem ih => exact hparts _ ih hmem
  | body _ hres _ => exact hbody _ _ _ hres

end Parser

namespace Brackets

open Descent.Parser (Reachable)

/-- The parsers that the rule of items can come to. -/
def reachable : List (Parser Char Unit) :=
  [.reference grammar "items", items, .reference grammar "item", item,
    .sequence [.symbol '(', .reference grammar "items", .symbol ')'],
    .symbol '(', .symbol ')', .symbol 'x']

theorem parts_subset_reachable : ∀ q ∈ reachable, q.parts ⊆ reachable := by
  simp [reachable, items, item, Parser.parts, Parser.symbol]

theorem mem_reachable {q : Parser Char Unit}
    (h : Reachable rules (.reference grammar "items") q) : q ∈ reachable := by
  apply h.mem_of_closed List.mem_cons_self parts_subset_reachable
  intro g name body hbody
  obtain ⟨-, rfl⟩ | ⟨-, rfl⟩ := resolve_eq_ok hbody
  · simp
  · simp

theorem eq_of_reachable_reference {g : GrammarId} {name : String}
    (h : Reachable rules (.reference grammar "items") (.reference g name)) :
    g = grammar ∧ (name = "items" ∨ name = "item") := by
  simpa [reachable, items, item, Parser.symbol, ← and_or_left] using mem_reachable h

theorem not_reachable_select {ps : List (Parser Char Unit)} {index : Nat} :
    ¬ Reachable rules (.reference grammar "items") (.select ps index) := by
  intro h
  simpa [reachable, items, item, Parser.symbol] using mem_reachable h

end Brackets

end Descent
