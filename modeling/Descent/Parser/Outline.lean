import Descent.Parser

/-!
# Outlines

The outline of a parser is what its description is about: the kinds of parsers that it is put
together from and their order, with the symbols, the bounds, the indices and the names of rules in
them. Values and functions are left out, and so are the grammars that references belong to.
-/

namespace Descent

/-- The shape of a parser of symbols `σ`. -/
inductive Outline (σ : Type) where
  | oneOf (symbols : List σ)
  | anySymbol
  | endOfInput
  | sequence (parts : List (Outline σ))
  | select (parts : List (Outline σ)) (index : Nat)
  | pair (first second : Outline σ)
  | choice (alternatives : List (Outline σ))
  /-- A match or none, with whatever stands for its absence. -/
  | optional (part : Outline σ)
  | many (part : Outline σ) (min : Nat)
  | action (part : Outline σ)
  | reference (name : String)

namespace Outline

variable {σ : Type}

section Describe

variable [Described σ]

mutual

def describe : Outline σ → String
  | oneOf symbols => Parser.bracketed "Set" (symbols.map Described.describe)
  | anySymbol => "Any"
  | endOfInput => "End"
  | sequence parts => Parser.bracketed "Sequence" (describeAll parts)
  | select parts index =>
    Parser.bracketed "Select" [Parser.bracketed "Sequence" (describeAll parts), toString index]
  | pair first second => Parser.bracketed "And" [first.describe, second.describe]
  | choice alternatives => Parser.bracketed "Choice" (describeAll alternatives)
  | optional part => Parser.bracketed "Opt" [part.describe]
  | many part min => Parser.bracketed "Many" [part.describe, toString min]
  | action part => Parser.bracketed "Action" [part.describe]
  | reference name => Parser.bracketed "Ref" [name]

def describeAll : List (Outline σ) → List String
  | [] => []
  | o :: os => o.describe :: describeAll os

end

theorem describeAll_eq_map (os : List (Outline σ)) : describeAll os = os.map describe := by
  induction os with
  | nil => rfl
  | cons o os ih => simp [describeAll, ih]

end Describe

/-- The outlines directly within an outline. -/
def parts : Outline σ → List (Outline σ)
  | oneOf _ | anySymbol | endOfInput | reference _ => []
  | sequence parts | select parts _ | choice parts => parts
  | pair first second => [first, second]
  | optional part | many part _ | action part => [part]

mutual

/-- The names of the rules that are referred to. -/
def ruleNames : Outline σ → List String
  | oneOf _ | anySymbol | endOfInput => []
  | sequence parts | select parts _ | choice parts => ruleNamesOfAll parts
  | pair first second => first.ruleNames ++ second.ruleNames
  | optional part | many part _ | action part => part.ruleNames
  | reference name => [name]

def ruleNamesOfAll : List (Outline σ) → List String
  | [] => []
  | o :: os => o.ruleNames ++ ruleNamesOfAll os

end

theorem ruleNamesOfAll_eq_flatMap (os : List (Outline σ)) :
    ruleNamesOfAll os = os.flatMap ruleNames := by
  induction os with
  | nil => rfl
  | cons o os ih => simp [ruleNamesOfAll, ih]

theorem ruleNames_subset_of_mem_parts {o part : Outline σ} (h : part ∈ o.parts) :
    part.ruleNames ⊆ o.ruleNames := by
  cases o with
  | oneOf | anySymbol | endOfInput | reference => simp [parts] at h
  | sequence | select | choice =>
    rw [ruleNames, ruleNamesOfAll_eq_flatMap]
    exact fun _ hname => List.mem_flatMap.mpr ⟨part, h, hname⟩
  | pair first second =>
    rw [ruleNames]
    simp only [parts, List.mem_cons, List.not_mem_nil, or_false] at h
    rcases h with rfl | rfl
    · exact List.subset_append_left _ _
    · exact List.subset_append_right _ _
  | optional | many | action =>
    rw [ruleNames, List.mem_singleton.mp h]
    exact List.Subset.refl _

/-- No name of a rule has a closing bracket in it. -/
def Clear (o : Outline σ) : Prop := ∀ name ∈ o.ruleNames, ']' ∉ name.toList

instance (o : Outline σ) : Decidable o.Clear :=
  inferInstanceAs (Decidable (∀ name ∈ o.ruleNames, ']' ∉ name.toList))

end Outline

namespace Parser

variable {σ δ : Type}

mutual

def outline : Parser σ δ → Outline σ
  | oneOf symbols => .oneOf symbols
  | anySymbol => .anySymbol
  | endOfInput _ => .endOfInput
  | sequence parsers => .sequence (outlineAll parsers)
  | select parsers index => .select (outlineAll parsers) index
  | pair first second => .pair first.outline second.outline
  | choice alternatives => .choice (outlineAll alternatives)
  | optional parser => .optional parser.outline
  | optionalOr parser _ => .optional parser.outline
  | many parser min => .many parser.outline min
  | action parser _ => .action parser.outline
  | reference _ name => .reference name
  | leaf x => x.elim

def outlineAll : List (Parser σ δ) → List (Outline σ)
  | [] => []
  | p :: ps => p.outline :: outlineAll ps

end

variable [Described σ]

mutual

/-- A description is about nothing but the outline. -/
theorem describe_outline : (p : Parser σ δ) → p.outline.describe = p.describe
  | oneOf _ | anySymbol | endOfInput _ | reference .. => rfl
  | sequence ps | choice ps => by
    rw [outline, Outline.describe, describe, describeAll_outlineAll ps]
  | select ps _ => by
    rw [outline, Outline.describe, describe, describeAll_outlineAll ps]
  | pair p q => by
    rw [outline, Outline.describe, describe, describe_outline p, describe_outline q]
  | optional p | optionalOr p _ | many p _ | action p _ => by
    rw [outline, Outline.describe, describe, describe_outline p]
  | leaf x => x.elim

theorem describeAll_outlineAll :
    (ps : List (Parser σ δ)) → Outline.describeAll (outlineAll ps) = describeAll ps
  | [] => rfl
  | p :: ps => by
    rw [outlineAll, Outline.describeAll, describeAll, describe_outline p, describeAll_outlineAll ps]

end

end Parser

end Descent
