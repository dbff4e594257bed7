import Descent.Cursor.Slice
import Descent.Proofs.Postcondition
import Descent.Proofs.Reachable
import Descent.Symbol.Token

/-!
# Values that spell what was read

Where no value is computed, selected or made up, a match accounts for the input: the symbols at the
leaves of its value, from left to right, are the symbols that it read, and the rest of the input
follows them. The leaves are the symbols of the input, whatever symbols they were compared with.
-/

namespace Descent

variable {γ σ δ α : Type}

/-- What was read from `c` to the rest is the list of symbols of the value. -/
def Spells [Cursor γ σ] (symbols : α → List σ) (c : γ) (value : α) (rest : γ) : Prop :=
  symbols value ++ Cursor.remaining rest = Cursor.remaining c

namespace Spells

variable [Cursor γ σ] {symbols : α → List σ}

theorem of_symbols_eq_nil {value : α} (h : symbols value = []) (c : γ) :
    Spells symbols c value c := by
  rw [Spells, h, List.nil_append]

/-- Values one after another spell what all of them together have read. -/
theorem collects : Recognizer.Collects (Spells (γ := γ) symbols)
    (Spells fun values => values.flatMap symbols) where
  nil := of_symbols_eq_nil rfl
  cons := by
    intro c middle rest value values hvalue hvalues
    rw [Spells, List.flatMap_cons, List.append_assoc, hvalues, hvalue]

theorem list {c rest : γ} {values : List (Value σ δ)}
    (h : Spells (fun values => values.flatMap Value.symbols) c values rest) :
    Spells Value.symbols c (.list values) rest := by
  rwa [Spells, Value.symbols_list]

theorem pair {c middle rest : γ} {first second : Value σ δ}
    (h : Spells Value.symbols c first middle) (h' : Spells Value.symbols middle second rest) :
    Spells Value.symbols c (.pair first second) rest := by
  rw [Spells, Value.symbols_pair, List.append_assoc, h', h]

theorem of_current [LawfulCursor γ] {c : γ} {s : σ} (h : Cursor.current c = some s) :
    Spells (fun s => [s]) c s (Cursor.advance c) :=
  (Cursor.remaining_eq_cons_of_current h).symm

end Spells

namespace Parser

/-- The parser yields what its parts yield and what it reads itself, or a literal without symbols.
It leaves nothing out and computes nothing. -/
def KeepsSymbols : Parser σ δ → Prop
  | oneOf _ | anySymbol | sequence _ | pair .. | choice _ | optional _ | many .. | reference .. =>
    True
  | endOfInput value | optionalOr _ value => value.symbols = []
  | select .. | action .. => False

/-- Every parser within reach keeps the symbols. -/
def Verbatim (r : Registry σ δ) (p : Parser σ δ) : Prop := ∀ q, Reachable r p q → q.KeepsSymbols

namespace Verbatim

variable {r : Registry σ δ} {p q : Parser σ δ}

theorem of_reachable (h : Verbatim r p) (hq : Reachable r p q) : Verbatim r q :=
  fun q' hq' => h q' (hq.trans hq')

theorem part (h : Verbatim r p) (hq : q ∈ p.parts) : Verbatim r q :=
  h.of_reachable (.part .self hq)

theorem body {g : GrammarId} {name : String} (h : Verbatim r (.reference g name))
    (hq : r.resolve g name = .ok q) : Verbatim r q :=
  h.of_reachable (.body .self hq)

end Verbatim

open Recognizer (Ensures)

variable [Cursor γ σ] [LawfulCursor γ] [BEq σ] {r : Registry σ δ} {p : Parser σ δ}

/-- When the values of what a parser runs next spell what was read, so does its own. -/
theorem step_spells {rounds : Nat} {run : Parser σ δ → Recognizer γ (Value σ δ)}
    (hkeeps : p.KeepsSymbols) (hparts : ∀ q ∈ p.parts, Ensures (Spells Value.symbols) (run q))
    (hbody : ∀ g name body, p = .reference g name → r.resolve g name = .ok body →
      Ensures (Spells Value.symbols) (run body)) :
    Ensures (Spells Value.symbols) (step r rounds run p) := by
  intro c value rest h
  cases p with
  | oneOf symbols =>
    have hread : Ensures (Spells fun s => [s]) (Recognizer.oneOf (γ := γ) symbols) :=
      .oneOf fun _ _ hs _ => Spells.of_current hs
    exact hread.action (f := Value.symbol) (fun _ _ _ hs => hs) c value rest h
  | anySymbol =>
    have hread : Ensures (Spells fun s => [s]) (Recognizer.anySymbol (γ := γ)) :=
      .anySymbol fun _ _ hs => Spells.of_current hs
    exact hread.action (f := Value.symbol) (fun _ _ _ hs => hs) c value rest h
  | endOfInput v =>
    exact Ensures.endOfInput (fun d _ => .of_symbols_eq_nil hkeeps d) c value rest h
  | sequence ps =>
    have hps := Ensures.sequence (List.forall_mem_map.mpr hparts) Spells.collects
    exact hps.action (f := Value.list) (fun _ _ _ => Spells.list) c value rest h
  | select => exact hkeeps.elim
  | pair p q =>
    have hp := hparts p (by simp [parts])
    have hq := hparts q (by simp [parts])
    have hpair := hp.pair hq (Q := fun d v e => Spells Value.symbols d (.pair v.1 v.2) e)
      fun _ _ _ _ _ => Spells.pair
    exact hpair.action (f := fun v : Value σ δ × Value σ δ => Value.pair v.1 v.2)
      (fun _ _ _ hv => hv) c value rest h
  | choice ps => exact Ensures.choice (List.forall_mem_map.mpr hparts) c value rest h
  | optional p =>
    have hp := hparts p (by simp [parts])
    have hpresent := hp.action (f := some) (Q := Spells (Value.symbols ∘ Value.ofOption))
      fun _ _ _ hv => hv
    have hopt : Ensures (Spells (Value.symbols ∘ Value.ofOption)) (run p).optional :=
      hpresent.optionalOr (.of_symbols_eq_nil rfl)
    exact hopt.action (f := Value.ofOption) (fun _ _ _ hv => hv) c value rest h
  | optionalOr p v =>
    exact (hparts p (by simp [parts])).optionalOr (.of_symbols_eq_nil hkeeps) c value rest h
  | many p min =>
    have hp := hparts p (by simp [parts])
    have hmany := hp.many (Spells.collects.mono fun _ _ _ => And.left) rounds min
    exact hmany.action (f := Value.list) (fun _ _ _ hvs => hvs.2.list) c value rest h
  | action => exact hkeeps.elim
  | reference g name =>
    rw [result?_step_reference] at h
    split at h
    · cases h
    next body hresolve => exact hbody g name body rfl hresolve c value rest h
  | leaf x => exact x.elim

theorem recognizer_spells (budget : Nat) (hp : Verbatim r p) :
    Ensures (Spells Value.symbols) (recognizer (γ := γ) r budget p) := by
  induction budget generalizing p with
  | zero =>
    intro c value rest h
    cases h
  | succ budget ih =>
    refine step_spells (hp p .self) (fun q hq => ih (hp.part hq)) ?_
    intro g name body hreference hbody
    subst hreference
    exact ih (hp.body hbody)

/-- The symbols of a match, followed by the rest of the input, are the input. -/
theorem parse_success_spells (hp : Verbatim r p) {c rest : γ} {value : Value σ δ}
    (h : (p.parse r c).result? = some (.ok (.success value rest))) :
    value.symbols ++ Cursor.remaining rest = Cursor.remaining c :=
  recognizer_spells (budget r p c) hp c value rest h

end Parser

namespace Listing

open Descent.Parser (Reachable)

def number : Parser Token Unit := .symbol ⟨"number", "0"⟩

def comma : Parser Token Unit := .symbol ⟨"comma", ","⟩

def word : Parser Token Unit := .symbol ⟨"word", "a"⟩

/-- A number with a comma after it or, without one, with or without a word. -/
def entry : Parser Token Unit := .choice [.pair number comma, .pair number (.optional word)]

def entries : Parser Token Unit := .many entry 1

def input : Array Token := #[⟨"number", "17"⟩, ⟨"comma", ";"⟩, ⟨"number", "23"⟩, ⟨"stop", "."⟩]

theorem verbatim_entries : Parser.Verbatim .empty entries := by
  intro q hq
  have hmem : q ∈ [entries, entry, .pair number comma, .pair number (.optional word), number,
      comma, .optional word, word] := by
    apply hq.mem_of_closed List.mem_cons_self
    · simp [entries, entry, number, comma, word, Parser.parts, Parser.symbol]
    · intro g name body hbody
      cases hbody
  simp only [List.mem_cons, List.not_mem_nil, or_false] at hmem
  rcases hmem with rfl | rfl | rfl | rfl | rfl | rfl | rfl | rfl <;> trivial

/-- The first alternative reads the second number in vain, and the second one reads it again. The
texts of the tokens are those of the input. -/
theorem entries_success_spells :
    Parser.Verbatim .empty entries ∧
    (entries.parse .empty (SliceCursor.ofArray input)).result? =
      some (.ok (.success (.list [.pair (.symbol ⟨"number", "17"⟩) (.symbol ⟨"comma", ";"⟩),
        .pair (.symbol ⟨"number", "23"⟩) .absent]) (.reading input 3))) ∧
    [⟨"number", "17"⟩, ⟨"comma", ";"⟩, ⟨"number", "23"⟩] ++
        Cursor.remaining (SliceCursor.reading input 3) =
      Cursor.remaining (SliceCursor.ofArray input) := by
  have hsuccess : (entries.parse .empty (SliceCursor.ofArray input)).result? =
      some (.ok (.success (.list [.pair (.symbol ⟨"number", "17"⟩) (.symbol ⟨"comma", ";"⟩),
        .pair (.symbol ⟨"number", "23"⟩) .absent]) (.reading input 3))) := rfl
  exact ⟨verbatim_entries, hsuccess, Parser.parse_success_spells verbatim_entries hsuccess⟩

end Listing

end Descent
