import Descent.Grammar.Bindings

/-!
# Nested brackets

A grammar of two rules that refer to each other: an item is a letter, or any number of items in
brackets.
-/

namespace Descent.Brackets

def grammar : GrammarId := ⟨0⟩

def item : Parser Char Unit :=
  .choice
    [.sequence [.symbol '(', .reference grammar "items", .symbol ')'], .symbol 'x']

def items : Parser Char Unit := .many (.reference grammar "item") 0

def rules : Registry Char Unit :=
  (Registry.empty.create.2.bind grammar "item" item).bind grammar "items" items

/-- An item with something before it and something after it. -/
def input : Array Char := #['q', '(', 'x', ')', 'y']

theorem resolve_item : rules.resolve grammar "item" = .ok item := rfl

theorem resolve_items : rules.resolve grammar "items" = .ok items := rfl

/-- Nothing else is bound. -/
theorem resolve_eq_ok {g : GrammarId} {name : String} {body : Parser Char Unit}
    (h : rules.resolve g name = .ok body) :
    (g, name) = (grammar, "item") ∧ body = item ∨ (g, name) = (grammar, "items") ∧ body = items := by
  by_cases hg : g = grammar
  · obtain rfl := hg
    rw [rules, Registry.resolve_bind_self _ rfl] at h
    split at h
    next hname =>
      cases h
      exact .inr ⟨by rw [hname], rfl⟩
    · rw [Registry.resolve_bind_self _ rfl] at h
      split at h
      next hname =>
        cases h
        exact .inl ⟨by rw [hname], rfl⟩
      · cases h
  · rw [rules, Registry.resolve_bind_of_ne _ hg, Registry.resolve_bind_of_ne _ hg,
      Registry.resolve_create_of_ne _ hg] at h
    cases h

end Descent.Brackets
