import Descent.Grammar.Bindings

/-!
# Depth of nesting

A grammar of one rule that refers to itself: a letter, or what the rule matches in brackets. It
counts the brackets around the letter.
-/

namespace Descent.Nesting

def grammar : GrammarId := ⟨0⟩

/-- One level more than what is between the brackets. -/
def deeper : Value Char Nat → Value Char Nat
  | .pair (.pair _ (.datum depth)) _ => .datum (depth + 1)
  | v => v

def parens : Parser Char Nat :=
  .action (.pair (.pair (.symbol '(') (.reference grammar "p")) (.symbol ')')) deeper

def letter : Parser Char Nat := .action (.symbol 'x') fun _ => .datum 0

def body : Parser Char Nat := .choice [parens, letter]

def rules : Registry Char Nat := Registry.empty.create.2.bind grammar "p" body

theorem resolve_p : rules.resolve grammar "p" = .ok body := rfl

/-- The letter in so many pairs of brackets. -/
def print (depth : Nat) : List Char :=
  List.replicate depth '(' ++ 'x' :: List.replicate depth ')'

theorem print_zero : print 0 = ['x'] := rfl

theorem print_succ (depth : Nat) : print (depth + 1) = '(' :: print depth ++ [')'] := by
  rw [print, print, List.replicate_succ, List.replicate_succ']
  simp

end Descent.Nesting
