/-!
# Values

What parsers yield: a tree whose leaves are symbols of the input or data computed from them. The
leaves of a value are read from left to right.
-/

namespace Descent

/-- The result of a match, over symbols `σ` and computed data `δ`. -/
inductive Value (σ δ : Type) where
  | symbol (s : σ)
  | unit
  /-- An optional part that was not there. -/
  | absent
  /-- An optional part that was there. -/
  | present (value : Value σ δ)
  | pair (first second : Value σ δ)
  | list (values : List (Value σ δ))
  | labelled (label : String) (value : Value σ δ)
  | datum (d : δ)

inductive Leaf (σ δ : Type) where
  | symbol (s : σ)
  | datum (d : δ)

def Leaf.symbol? {σ δ : Type} : Leaf σ δ → Option σ
  | symbol s => some s
  | datum _ => none

namespace Value

variable {σ τ δ : Type}

mutual

/-- The symbols and data of a value from left to right. -/
def leaves : Value σ δ → List (Leaf σ δ)
  | symbol s => [.symbol s]
  | unit => []
  | absent => []
  | present value => value.leaves
  | pair first second => first.leaves ++ second.leaves
  | list values => leavesOfList values
  | labelled _ value => value.leaves
  | datum d => [.datum d]

def leavesOfList : List (Value σ δ) → List (Leaf σ δ)
  | [] => []
  | value :: values => value.leaves ++ leavesOfList values

end

mutual

/-- Replaces the symbols at the leaves. -/
def mapSymbols (f : σ → τ) : Value σ δ → Value τ δ
  | symbol s => symbol (f s)
  | unit => unit
  | absent => absent
  | present value => present (value.mapSymbols f)
  | pair first second => pair (first.mapSymbols f) (second.mapSymbols f)
  | list values => list (mapSymbolsOfList f values)
  | labelled label value => labelled label (value.mapSymbols f)
  | datum d => datum d

def mapSymbolsOfList (f : σ → τ) : List (Value σ δ) → List (Value τ δ)
  | [] => []
  | value :: values => value.mapSymbols f :: mapSymbolsOfList f values

end

/-- The symbols at the leaves from left to right. -/
def symbols (value : Value σ δ) : List σ := value.leaves.filterMap Leaf.symbol?

def ofOption : Option (Value σ δ) → Value σ δ
  | none => absent
  | some value => present value

theorem leavesOfList_eq_flatMap (values : List (Value σ δ)) :
    leavesOfList values = values.flatMap leaves := by
  induction values with
  | nil => rfl
  | cons value values ih => simp [leavesOfList, ih]

theorem mapSymbolsOfList_eq_map (f : σ → τ) (values : List (Value σ δ)) :
    mapSymbolsOfList f values = values.map (mapSymbols f) := by
  induction values with
  | nil => rfl
  | cons value values ih => simp [mapSymbolsOfList, ih]

@[simp] theorem symbols_symbol (s : σ) : (symbol s : Value σ δ).symbols = [s] := rfl

@[simp] theorem symbols_unit : (unit : Value σ δ).symbols = [] := rfl

@[simp] theorem symbols_absent : (absent : Value σ δ).symbols = [] := rfl

@[simp] theorem symbols_present (value : Value σ δ) :
    (present value).symbols = value.symbols := rfl

@[simp] theorem symbols_pair (first second : Value σ δ) :
    (pair first second).symbols = first.symbols ++ second.symbols := by
  simp [symbols, leaves]

@[simp] theorem symbols_list (values : List (Value σ δ)) :
    (list values).symbols = values.flatMap symbols := by
  simp only [symbols, leaves, leavesOfList_eq_flatMap, List.filterMap_flatMap]
  rfl

end Value

end Descent
