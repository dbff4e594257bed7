import Descent.Grammar.Bindings

/-!
# Histories of grammars

What clients have done to grammars, one operation after another. A history alone tells what a
registry must hold after it: which grammars are still there, and the latest parser registered under
each of their names.
-/

namespace Descent

/-- What a client can do to grammars or ask of them. -/
inductive Operation (σ δ : Type) (ξ : Type := Empty) where
  | create
  | drop (g : GrammarId)
  | register (g : GrammarId) (name : String) (p : Parser σ δ ξ)
  /-- Asks for the parser that a name is bound to now. -/
  | rule (g : GrammarId) (name : String)
  /-- Asks for a reference to a name, bound or not. -/
  | reference (g : GrammarId) (name : String)

/-- What an operation hands back. -/
inductive Reply (σ δ : Type) (ξ : Type := Empty) where
  | created (g : GrammarId)
  | dropped
  | registered (previous : Option (Parser σ δ ξ))
  | found (rule : Except GrammarError (Parser σ δ ξ))
  | reference (p : Parser σ δ ξ)

namespace Operation

variable {σ δ ξ : Type}

/-- The grammar that is operated on. -/
def grammar? : Operation σ δ ξ → Option GrammarId
  | create => none
  | drop g | register g _ _ | rule g _ | reference g _ => some g

/-- The parser that the operation binds to the name. -/
def binding? (g : GrammarId) (name : String) : Operation σ δ ξ → Option (Parser σ δ ξ)
  | register g' name' p => if g' = g ∧ name' = name then some p else none
  | _ => none

theorem binding?_eq_some_iff {g : GrammarId} {name : String} {op : Operation σ δ ξ}
    {p : Parser σ δ ξ} : op.binding? g name = some p ↔ op = .register g name p := by
  cases op with
  | register g' name' p' => simp [binding?, and_assoc]
  | _ => simp [binding?]

def isCreate : Operation σ δ ξ → Bool
  | create => true
  | _ => false

def drops (g : GrammarId) : Operation σ δ ξ → Bool
  | drop g' => g' = g
  | _ => false

theorem grammar?_of_drops {g : GrammarId} {op : Operation σ δ ξ} (h : op.drops g = true) :
    op.grammar? = some g := by
  cases op with
  | drop g' => simpa [drops, grammar?] using h
  | _ => cases h

variable [Described σ] [Described ξ]

def perform (r : Registry σ δ ξ) : Operation σ δ ξ → Reply σ δ ξ × Registry σ δ ξ
  | create => (.created r.create.1, r.create.2)
  | drop g => (.dropped, r.drop g)
  | register g name p =>
    (.registered (r.register g name p).previous, (r.register g name p).registry)
  | rule g name => (.found (r.resolve g name), r)
  | reference g name => (.reference (.reference g name), r)

end Operation

/-- Operations in the order in which they were performed. -/
abbrev History (σ δ : Type) (ξ : Type := Empty) : Type := List (Operation σ δ ξ)

namespace Registry

variable {σ δ ξ : Type} [Described σ] [Described ξ]

def after (r : Registry σ δ ξ) (h : History σ δ ξ) : Registry σ δ ξ :=
  h.foldl (fun r op => (op.perform r).2) r

/-- A client that operates on a grammar has it in hand, so the grammar is alive. -/
def allows (r : Registry σ δ ξ) : History σ δ ξ → Bool
  | [] => true
  | op :: later => op.grammar?.all r.isLive && (op.perform r).2.allows later

variable (r : Registry σ δ ξ)

@[simp] theorem after_nil : r.after [] = r := rfl

@[simp] theorem after_cons (op : Operation σ δ ξ) (later : History σ δ ξ) :
    r.after (op :: later) = (op.perform r).2.after later := rfl

theorem allows_append (h later : History σ δ ξ) :
    r.allows (h ++ later) = (r.allows h && (r.after h).allows later) := by
  induction h generalizing r with
  | nil => rfl
  | cons op h ih => simp [allows, ih, Bool.and_assoc]

end Registry

namespace History

variable {σ δ ξ : Type} (h : History σ δ ξ) (g : GrammarId) (name : String)

/-- The parser registered last under a name. -/
def latest : Option (Parser σ δ ξ) := (h.filterMap (·.binding? g name)).getLast?

/-- The grammar was created and has not been dropped. -/
def holds : Bool := g.index < h.countP Operation.isCreate && !h.any (·.drops g)

/-- What a look-up must find. -/
def lookup : Except GrammarError (Parser σ δ ξ) :=
  if h.holds g then
    match h.latest g name with
    | some p => .ok p
    | none => .error (.unboundRule name)
  else .error (.droppedGrammar name)

/-- What the operation at an index handed back, in a history of grammars from the first one on. -/
def reply? [Described σ] [Described ξ] (i : Nat) : Option (Reply σ δ ξ) :=
  h[i]?.map fun op => (op.perform (Registry.empty.after (h.take i))).1

variable {h g name}

theorem latest_append_singleton (op : Operation σ δ ξ) :
    latest (h ++ [op]) g name = (op.binding? g name).or (h.latest g name) := by
  cases hop : op.binding? g name <;> simp [latest, hop]

theorem holds_append_singleton (op : Operation σ δ ξ) :
    holds (h ++ [op]) g =
      (decide (g.index < h.countP Operation.isCreate + if op.isCreate then 1 else 0) &&
        !h.any (·.drops g) && !op.drops g) := by
  simp [holds, List.countP_singleton, Bool.and_assoc]

theorem exists_register_iff :
    (∃ p, .register g name p ∈ h) ↔ (h.latest g name).isSome = true := by
  have hmem : (h.latest g name).isSome = true ↔ ∃ p, p ∈ h.filterMap (·.binding? g name) := by
    rw [latest, List.getLast?_isSome]
    exact ⟨List.exists_mem_of_ne_nil _, fun ⟨_, hp⟩ => List.ne_nil_of_mem hp⟩
  rw [hmem]
  apply exists_congr
  intro p
  rw [List.mem_filterMap]
  constructor
  · intro hp
    exact ⟨_, hp, Operation.binding?_eq_some_iff.mpr rfl⟩
  · rintro ⟨op, hop, hbinding⟩
    rwa [Operation.binding?_eq_some_iff.mp hbinding] at hop

end History

end Descent
