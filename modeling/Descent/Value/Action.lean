import Descent.Value.Datum

/-!
# Actions on values

The functions that a grammar can attach to a parser. Each acts on the values it is made for and
gives every other value back unchanged.
-/

namespace Descent.Value

variable {σ δ : Type}

def first : Value σ δ → Value σ δ
  | pair v _ => v
  | v => v

def second : Value σ δ → Value σ δ
  | pair _ w => w
  | v => v

def element (index : Nat) : Value σ δ → Value σ δ
  | list vs => vs.getD index (list vs)
  | v => v

def reversed : Value σ δ → Value σ δ
  | list vs => list vs.reverse
  | v => v

def length : Value σ Datum → Value σ Datum
  | list vs => datum (.int (.ofNat vs.length))
  | v => v

def symbolCount (v : Value σ Datum) : Value σ Datum := datum (.int (.ofNat v.symbols.length))

def next : Value σ Datum → Value σ Datum
  | datum (.int n) => datum (.int (n + 1))
  | v => v

/-- The number of a pair, negated when the first component is present. -/
def negateIfPresent : Value σ Datum → Value σ Datum
  | pair (present _) (datum (.int n)) => datum (.int (-n))
  | pair absent v => v
  | v => v

variable [Lexeme σ]

def asText (v : Value σ Datum) : Value σ Datum := datum (.text v.text)

/-- The number that the decimal digits of a text write, whatever stands between them. -/
def decimal (text : String) : Int64 :=
  (text.toList.filter Char.isDigit).foldl (fun n c => n * 10 + .ofNat (c.toNat - '0'.toNat)) 0

/-- The number that the digits of a value write. -/
def asNumber (v : Value σ Datum) : Value σ Datum := datum (.int (decimal v.text))

/-- Arithmetic by the sign of the operation. What is no other sign divides, rounding toward zero;
a division by zero gives zero. -/
def operate (sign : String) (a b : Int64) : Int64 :=
  if sign = "+" then a + b
  else if sign = "-" then a - b
  else if sign = "*" then a * b
  else a / b

/-- One step of a chain of operations; an element that is no operation changes nothing. -/
def operateStep (a : Int64) : Value σ Datum → Int64
  | pair sign (datum (.int b)) => operate sign.text a b
  | _ => a

/-- The number of a pair, with the operations of the list beside it done from left to right. -/
def operateAll : Value σ Datum → Value σ Datum
  | pair (datum (.int n)) (list steps) => datum (.int (steps.foldl operateStep n))
  | v => v

/-- The texts of the elements of a list with a separator between them. -/
def joined (separator : String) : Value σ Datum → Value σ Datum
  | list vs => datum (.text (separator.intercalate (vs.map text)))
  | v => v

def enclosed (left right : String) (v : Value σ Datum) : Value σ Datum :=
  datum (.text (left ++ v.text ++ right))

def codePoint : Value σ Datum → Value σ Datum
  | symbol s =>
    match Lexeme.codePoint? s with
    | some n => datum (.int (.ofNat n))
    | none => symbol s
  | v => v

end Descent.Value
