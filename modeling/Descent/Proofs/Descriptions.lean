import Descent.Parser.Outline
import Descent.Proofs.Legible

/-!
# Descriptions can be read back

The outline of a parser can be told from its description, provided that its symbols can be told from
theirs and that no rule name has a closing bracket in it. How a description begins tells the kind of
parser, and the commas and brackets behind its parts tell the parts.
-/

namespace Descent

namespace Parser

theorem toList_bracketed (kind : String) (parts : List String) :
    (bracketed kind parts).toList =
      kind.toList ++ '[' :: joined (parts.map String.toList) := by
  simp [bracketed, joined]

theorem toList_bracketed_one (kind part : String) :
    (bracketed kind [part]).toList = kind.toList ++ '[' :: (part.toList ++ [']']) := by
  rw [toList_bracketed, List.map_singleton, joined_singleton]

theorem toList_bracketed_two (kind part part' : String) :
    (bracketed kind [part, part']).toList =
      kind.toList ++ '[' :: (part.toList ++ ([',', ' '] ++ (part'.toList ++ [']']))) := by
  rw [toList_bracketed, List.map_cons, List.map_singleton, joined_cons_cons, joined_singleton]

theorem length_lt_bracketed (kind : String) {part : String} {parts : List String}
    (h : part ∈ parts) : part.toList.length < (bracketed kind parts).toList.length := by
  have hlt := length_lt_joined (List.mem_map_of_mem (f := String.toList) h)
  rw [toList_bracketed, List.length_append, List.length_cons]
  omega

end Parser

namespace Outline

open Descent.Parser (length_lt_bracketed toList_bracketed toList_bracketed_one toList_bracketed_two)

variable {σ : Type}

inductive Kind where
  | oneOf
  | anySymbol
  | endOfInput
  | sequence
  | select
  | pair
  | choice
  | optional
  | many
  | action
  | reference
deriving DecidableEq

namespace Kind

def all : List Kind :=
  [oneOf, anySymbol, endOfInput, sequence, select, pair, choice, optional, many, action, reference]

/-- What the descriptions of this kind begin with, up to the first part. -/
def opening : Kind → List Char
  | oneOf => ['S', 'e', 't', '[']
  | anySymbol => ['A', 'n', 'y']
  | endOfInput => ['E', 'n', 'd']
  | sequence => ['S', 'e', 'q', 'u', 'e', 'n', 'c', 'e', '[']
  | select => ['S', 'e', 'l', 'e', 'c', 't', '[', 'S', 'e', 'q', 'u', 'e', 'n', 'c', 'e', '[']
  | pair => ['A', 'n', 'd', '[']
  | choice => ['C', 'h', 'o', 'i', 'c', 'e', '[']
  | optional => ['O', 'p', 't', '[']
  | many => ['M', 'a', 'n', 'y', '[']
  | action => ['A', 'c', 't', 'i', 'o', 'n', '[']
  | reference => ['R', 'e', 'f', '[']

def decoder : Decoder Kind :=
  fun w => all.findSome? fun k => (w.dropPrefix? k.opening).map (k, ·)

theorem mem_all (k : Kind) : k ∈ all := by
  cases k <;> simp [all]

/-- No opening goes on as another one. -/
theorem eq_of_opening_begins {k k' : Kind} (h : k.opening <+: k'.opening) : k = k' := by
  have hall : ∀ k ∈ all, ∀ k' ∈ all, k.opening <+: k'.opening → k = k' := by decide
  exact hall k k.mem_all k' k'.mem_all h

theorem run_decoder (k : Kind) (w : List Char) : decoder.run (k.opening ++ w) = some (k, w) := by
  have hunique (k' : Kind) (r : Kind × List Char)
      (h : ((k.opening ++ w).dropPrefix? k'.opening).map (k', ·) = some r) : r = (k, w) := by
    obtain ⟨rest, hrest, rfl⟩ := Option.map_eq_some_iff.mp h
    obtain ⟨t, heq, ht⟩ := List.dropPrefix?_eq_some_iff.mp hrest
    rw [beq_iff_eq.mp ht] at heq
    obtain rfl : k = k' := by
      rcases List.prefix_or_prefix_of_prefix ⟨w, rfl⟩ ⟨rest, heq.symm⟩ with hprefix | hprefix
      · exact eq_of_opening_begins hprefix
      · exact (eq_of_opening_begins hprefix).symm
    rw [List.append_cancel_left heq]
  have hself : ((k.opening ++ w).dropPrefix? k.opening).map (k, ·) = some (k, w) := by
    rw [List.dropPrefix?_append_of_beq w (beq_self_eq_true k.opening), Option.map_some]
  cases hrun : decoder.run (k.opening ++ w) with
  | none => cases (List.findSome?_eq_none_iff.mp hrun k k.mem_all).symm.trans hself
  | some r =>
    obtain ⟨k', -, hr⟩ := List.exists_of_findSome?_eq_some hrun
    rw [hunique k' r hr]

end Kind

variable [Described σ] [Legible σ]

/-- What is behind the opening, with a decoder for the parts. -/
def contents (part : Decoder (Outline σ)) : Kind → Decoder (Outline σ)
  | .oneOf => oneOf <$> Decoder.list Legible.decoder
  | .anySymbol => pure anySymbol
  | .endOfInput => pure endOfInput
  | .sequence => sequence <$> part.list
  | .select => (fun x => select x.1 x.2) <$> part.list.comma Decoder.number.closed
  | .pair => (fun x => pair x.1 x.2) <$> part.comma part.closed
  | .choice => choice <$> part.list
  | .optional => optional <$> part.closed
  | .many => (fun x => many x.1 x.2) <$> part.comma Decoder.number.closed
  | .action => action <$> part.closed
  | .reference => reference <$> Decoder.name

def decoder : Nat → Decoder (Outline σ)
  | 0 => failure
  | bound + 1 => do
    let k ← Kind.decoder
    contents (decoder bound) k

/-- The outline that all of the text describes. -/
def decode? (text : String) : Option (Outline σ) :=
  match (decoder text.toList.length).run text.toList with
  | some (o, []) => some o
  | _ => none

theorem decodes_of_contents {bound : Nat} {k : Kind} {w : List Char} {o : Outline σ}
    (h : Decodes (contents (decoder bound) k) w o) :
    Decodes (decoder (bound + 1)) (k.opening ++ w) o := by
  intro rest hrest
  rw [List.append_assoc, decoder, Decoder.run_bind (k.run_decoder _)]
  exact h rest hrest

omit [Legible σ] in
theorem opens_describe (o : Outline σ) : Opens o.describe.toList := by
  cases o with
  | anySymbol | endOfInput =>
    rw [describe]
    exact ⟨_, _, rfl, by decide⟩
  | _ =>
    rw [describe, toList_bracketed]
    exact ⟨_, _, rfl, by decide⟩

omit [Legible σ] in
theorem length_describe_lt {o part : Outline σ} (h : part ∈ o.parts) :
    part.describe.toList.length < o.describe.toList.length := by
  cases o with
  | oneOf | anySymbol | endOfInput | reference => cases h
  | sequence parts | choice parts =>
    rw [describe, describeAll_eq_map]
    exact length_lt_bracketed _ (List.mem_map_of_mem h)
  | select parts index =>
    rw [describe, describeAll_eq_map]
    exact Nat.lt_trans (length_lt_bracketed "Sequence" (List.mem_map_of_mem h))
      (length_lt_bracketed _ List.mem_cons_self)
  | pair first second =>
    rw [describe]
    refine length_lt_bracketed _ ?_
    exact List.mem_map_of_mem (l := [first, second]) h
  | optional | many | action =>
    rw [describe, List.mem_singleton.mp h]
    exact length_lt_bracketed _ List.mem_cons_self

/-- The induction is on the bound, which is no less than the length of the text. -/
theorem decodes_describe {bound : Nat} (o : Outline σ) (hbound : o.describe.toList.length ≤ bound)
    (hnames : o.Clear) : Decodes (decoder bound) o.describe.toList o := by
  induction bound generalizing o with
  | zero =>
    obtain ⟨s, u, hs, -⟩ := opens_describe o
    rw [hs] at hbound
    cases hbound
  | succ bound ih =>
    have hpart (part : Outline σ) (h : part ∈ o.parts) :
        Decodes (decoder bound) part.describe.toList part := by
      have hlt := length_describe_lt h
      exact ih part (by omega) fun name hname => hnames name (ruleNames_subset_of_mem_parts h hname)
    have hparts {parts : List (Outline σ)} (h : parts ⊆ o.parts) :
        Decodes (decoder bound).list (joined ((parts.map describe).map String.toList)) parts := by
      rw [List.map_map]
      exact Decodes.list (fun part hmem => hpart part (h hmem)) fun part _ => opens_describe part
    cases o with
    | oneOf symbols =>
      rw [describe, toList_bracketed, List.map_map]
      exact decodes_of_contents (k := .oneOf)
        ((Decodes.list (fun s _ => Legible.decodes s) fun s _ => Legible.opens s).map oneOf)
    | anySymbol =>
      rw [describe]
      exact decodes_of_contents (k := .anySymbol) (.pure anySymbol)
    | endOfInput =>
      rw [describe]
      exact decodes_of_contents (k := .endOfInput) (.pure endOfInput)
    | sequence parts =>
      rw [describe, toList_bracketed, describeAll_eq_map]
      exact decodes_of_contents (k := .sequence) ((hparts (List.Subset.refl _)).map sequence)
    | select parts index =>
      have hselect := (hparts (List.Subset.refl _)).comma (Decodes.number index).closed
      rw [describe, toList_bracketed_two, toList_bracketed, describeAll_eq_map, List.append_assoc]
      exact decodes_of_contents (k := .select) (hselect.map _)
    | pair first second =>
      have hpair := (hpart first List.mem_cons_self).comma
        (hpart second (List.mem_cons_of_mem _ List.mem_cons_self)).closed
      rw [describe, toList_bracketed_two]
      exact decodes_of_contents (k := .pair) (hpair.map _)
    | choice parts =>
      rw [describe, toList_bracketed, describeAll_eq_map]
      exact decodes_of_contents (k := .choice) ((hparts (List.Subset.refl _)).map choice)
    | optional part =>
      rw [describe, toList_bracketed_one]
      exact decodes_of_contents (k := .optional) ((hpart part List.mem_cons_self).closed.map _)
    | many part min =>
      have hmany := (hpart part List.mem_cons_self).comma (Decodes.number min).closed
      rw [describe, toList_bracketed_two]
      exact decodes_of_contents (k := .many) (hmany.map _)
    | action part =>
      rw [describe, toList_bracketed_one]
      exact decodes_of_contents (k := .action) ((hpart part List.mem_cons_self).closed.map _)
    | reference name =>
      rw [describe, toList_bracketed_one]
      exact decodes_of_contents (k := .reference)
        ((Decodes.name (hnames name List.mem_cons_self)).map reference)

theorem decode?_describe (o : Outline σ) (hnames : o.Clear) : decode? o.describe = some o := by
  have hrun := decodes_describe o (Nat.le_refl _) hnames [] closes_nil
  rw [List.append_nil] at hrun
  rw [decode?, hrun]

end Outline

namespace Parser

variable {σ δ δ' : Type} [Described σ] [Legible σ] {p : Parser σ δ} {q : Parser σ δ'}

theorem decode?_describe (hp : p.outline.Clear) :
    Outline.decode? p.describe = some p.outline := by
  rw [← describe_outline, Outline.decode?_describe p.outline hp]

theorem describe_eq_iff (hp : p.outline.Clear) (hq : q.outline.Clear) :
    p.describe = q.describe ↔ p.outline = q.outline := by
  constructor
  · intro h
    have hdecode := congrArg (Outline.decode? (σ := σ)) h
    rw [decode?_describe hp, decode?_describe hq] at hdecode
    exact Option.some.inj hdecode
  · intro h
    rw [← describe_outline, h, describe_outline]

/-- The description of a parser of bytes, numbers or characters tells its outline, if there is no
closing bracket in the names of rules. So two such parsers are described alike just if they are put
together alike, but for values, functions, grammars and what stands for absence. -/
theorem describe_tells_outline :
    (∀ {δ δ' : Type} (p : Parser UInt8 δ) (q : Parser UInt8 δ'),
      p.outline.Clear → q.outline.Clear → Outline.decode? p.describe = some p.outline ∧
        (p.describe = q.describe ↔ p.outline = q.outline)) ∧
    (∀ {δ δ' : Type} (p : Parser Int64 δ) (q : Parser Int64 δ'),
      p.outline.Clear → q.outline.Clear → Outline.decode? p.describe = some p.outline ∧
        (p.describe = q.describe ↔ p.outline = q.outline)) ∧
    (∀ {δ δ' : Type} (p : Parser Char δ) (q : Parser Char δ'),
      p.outline.Clear → q.outline.Clear → Outline.decode? p.describe = some p.outline ∧
        (p.describe = q.describe ↔ p.outline = q.outline)) :=
  ⟨fun _ _ hp hq => ⟨decode?_describe hp, describe_eq_iff hp hq⟩,
    fun _ _ hp hq => ⟨decode?_describe hp, describe_eq_iff hp hq⟩,
    fun _ _ hp hq => ⟨decode?_describe hp, describe_eq_iff hp hq⟩⟩

-- a closing bracket in the name of a rule may end the description of the reference
example : (sequence [reference ⟨0⟩ "a], Ref[b"] : Parser Char Unit).describe =
    (sequence [reference ⟨0⟩ "a", reference ⟨0⟩ "b"] : Parser Char Unit).describe := by
  decide +kernel

end Parser

namespace Marks

/-- Marks that descriptions are written with, as symbols and in a rule name. -/
def marks : Parser Char Unit :=
  .choice [.oneOf ['[', ',', '\''], .optionalOr (.reference ⟨3⟩ "a, b") .unit,
    .select [.anySymbol, .many (.symbol ']') 2] 1]

/-- The same with other hidden parts. -/
def marks' : Parser Char Nat :=
  .choice [.oneOf ['[', ',', '\''], .optional (.reference ⟨0⟩ "a, b"),
    .select [.anySymbol, .many (.symbol ']') 2] 1]

def description : String :=
  "Choice[Set['[', ',', '\\''], Opt[Ref[a, b]], Select[Sequence[Any, Many[Set[']'], 2]], 1]]"

/-- The marks are told from the text around them, numbers from their digits, and lists from their
elements. -/
theorem marks_describe_tells_outline :
    Outline.decode? description = some marks.outline ∧
    marks.describe = marks'.describe ∧
    (Parser.oneOf [1, 2] : Parser UInt8 Unit).describe ≠
      (Parser.oneOf [12] : Parser UInt8 Unit).describe ∧
    (Parser.sequence [.oneOf [-1], .oneOf [1]] : Parser Int64 Unit).describe ≠
      (Parser.sequence [.oneOf [-1, 1]] : Parser Int64 Unit).describe := by
  obtain ⟨hbytes, hnumbers, hchars⟩ := Parser.describe_tells_outline
  obtain ⟨hdecode, halike⟩ := hchars marks marks' (by decide) (by decide)
  have htext : marks.describe = description := by decide +kernel
  refine ⟨htext ▸ hdecode, halike.mpr rfl, fun h => ?_, fun h => ?_⟩
  · have hsame := (hbytes _ _ (by decide) (by decide)).2.mp h
    injection hsame with hsame
    exact absurd hsame (by decide)
  · have hsame := (hnumbers _ _ (by decide) (by decide)).2.mp h
    injection hsame with hsame
    exact absurd (congrArg List.length hsame) (by decide)

end Marks

end Descent
