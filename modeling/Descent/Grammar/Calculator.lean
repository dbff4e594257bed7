import Descent.Grammar.Bindings

/-!
# A calculator

A grammar of sums and products, whose rules compute as they parse, and the expressions that it is
meant for: their texts, and what they come to when each list of operators is worked off from the
left. What the numbers are, and what is done with them, is left open.
-/

namespace Descent.Calculator

/-- What there is to compute with. -/
structure Arithmetic (δ : Type) where
  number : List Char → δ
  negate : δ → δ
  apply : δ → Char → δ → δ
  /-- What a bracket is worth. Nothing depends on it. -/
  bracket : δ

def digits : List Char := ['0', '1', '2', '3', '4', '5', '6', '7', '8', '9']

/-- The operators between the factors of a product. -/
def multOps : List Char := ['*', '/']

/-- The operators between the terms of a sum. -/
def addOps : List Char := ['+', '-']

section Grammar

variable {δ : Type} (A : Arithmetic δ)

def grammar : GrammarId := ⟨0⟩

def number : Parser Char δ :=
  .action (Parser.atLeastOnce (.oneOf digits)) fun v => .datum (A.number v.symbols)

def parens : Parser Char δ :=
  .select
    [.action (.symbol '(') fun _ => .datum A.bracket, .reference grammar "expr",
      .action (.symbol ')') fun _ => .datum A.bracket] 1

def simple : Parser Char δ := .choice [number A, parens A]

def signed : Value Char δ → Value Char δ
  | .pair (.present _) (.datum d) => .datum (A.negate d)
  | .pair _ v => v
  | v => v

def unary : Parser Char δ :=
  .action (.pair (.optional (.symbol '-')) (simple A)) (signed A)

/-- A left operand, and an operator with a right operand. -/
def applied : Value Char δ → Value Char δ → Value Char δ
  | .datum lhs, .pair (.symbol op) (.datum rhs) => .datum (A.apply lhs op rhs)
  | v, _ => v

def folded : Value Char δ → Value Char δ
  | .pair first (.list rest) => rest.foldl (applied A) first
  | v => v

/-- Operands with operators in between, worked off from the left. -/
def chain (ops : List Char) (operand : Parser Char δ) : Parser Char δ :=
  .action (.pair operand (.many (.pair (.oneOf ops) operand) 0)) (folded A)

def mult : Parser Char δ := chain A multOps (unary A)

def add : Parser Char δ := chain A addOps (mult A)

def first : Value Char δ → Value Char δ
  | .pair v _ => v
  | v => v

/-- An expression up to the end of the input. -/
def line : Parser Char δ := .action (.pair (.reference grammar "expr") (.endOfInput .unit)) first

def rules : Registry Char δ :=
  (Registry.empty.create.2.bind grammar "expr" (add A)).bind grammar "line" line

theorem resolve_expr : (rules A).resolve grammar "expr" = .ok (add A) := rfl

theorem resolve_line : (rules A).resolve grammar "line" = .ok line := rfl

end Grammar

/-- One or more digits. -/
abbrev Digits : Type := { ds : List { s // s ∈ digits } // 1 ≤ ds.length }

abbrev MultOp : Type := { op // op ∈ multOps }

abbrev AddOp : Type := { op // op ∈ addOps }

mutual

inductive Simple where
  | number (ds : Digits)
  | parens (inner : Expr)

/-- A simple expression, which may have a minus sign in front. -/
inductive Unary where
  | mk (negated : Bool) (operand : Simple)

inductive Mult where
  | mk (first : Unary) (rest : List (MultOp × Unary))

/-- An expression: sums of products of numbers and of expressions in brackets. -/
inductive Expr where
  | mk (first : Mult) (rest : List (AddOp × Mult))

end

def Digits.print (ds : Digits) : List Char := ds.val.map Subtype.val

mutual

def Simple.print : Simple → List Char
  | .number ds => Digits.print ds
  | .parens inner => '(' :: inner.print ++ [')']

def Unary.print : Unary → List Char
  | .mk true operand => '-' :: operand.print
  | .mk false operand => operand.print

def Mult.print : Mult → List Char
  | .mk first rest => first.print ++ printFactors rest

def printFactors : List (MultOp × Unary) → List Char
  | [] => []
  | (op, operand) :: rest => op.val :: operand.print ++ printFactors rest

/-- The text of an expression, without blanks. -/
def Expr.print : Expr → List Char
  | .mk first rest => first.print ++ printTerms rest

def printTerms : List (AddOp × Mult) → List Char
  | [] => []
  | (op, operand) :: rest => op.val :: operand.print ++ printTerms rest

end

section Eval

variable {δ : Type} (A : Arithmetic δ)

mutual

def Simple.eval : Simple → δ
  | .number ds => A.number (Digits.print ds)
  | .parens inner => inner.eval

def Unary.eval : Unary → δ
  | .mk true operand => A.negate operand.eval
  | .mk false operand => operand.eval

def Mult.eval : Mult → δ
  | .mk first rest => evalFactors first.eval rest

def evalFactors (lhs : δ) : List (MultOp × Unary) → δ
  | [] => lhs
  | (op, operand) :: rest => evalFactors (A.apply lhs op.val operand.eval) rest

/-- What an expression comes to. -/
def Expr.eval : Expr → δ
  | .mk first rest => evalTerms first.eval rest

def evalTerms (lhs : δ) : List (AddOp × Mult) → δ
  | [] => lhs
  | (op, operand) :: rest => evalTerms (A.apply lhs op.val operand.eval) rest

end

end Eval

theorem printFactors_eq_flatMap (rest : List (MultOp × Unary)) :
    printFactors rest = rest.flatMap fun x => x.1.val :: x.2.print := by
  induction rest with
  | nil => rfl
  | cons x rest ih => simp [printFactors, ih]

theorem printTerms_eq_flatMap (rest : List (AddOp × Mult)) :
    printTerms rest = rest.flatMap fun x => x.1.val :: x.2.print := by
  induction rest with
  | nil => rfl
  | cons x rest ih => simp [printTerms, ih]

theorem evalFactors_eq_foldl {δ : Type} (A : Arithmetic δ) (lhs : δ)
    (rest : List (MultOp × Unary)) :
    evalFactors A lhs rest = rest.foldl (fun lhs x => A.apply lhs x.1.val (x.2.eval A)) lhs := by
  induction rest generalizing lhs with
  | nil => rfl
  | cons x rest ih => exact ih _

theorem evalTerms_eq_foldl {δ : Type} (A : Arithmetic δ) (lhs : δ)
    (rest : List (AddOp × Mult)) :
    evalTerms A lhs rest = rest.foldl (fun lhs x => A.apply lhs x.1.val (x.2.eval A)) lhs := by
  induction rest generalizing lhs with
  | nil => rfl
  | cons x rest ih => exact ih _

end Descent.Calculator
