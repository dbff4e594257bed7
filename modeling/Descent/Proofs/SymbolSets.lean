import Descent.Cursor.Slice
import Descent.Proofs.Alternatives
import Descent.Symbol.Token

/-!
# Sets of symbols

The test for a set of symbols is a choice between the tests for its members. What is found is always
the symbol of the input, so which of the members has accepted it leaves no trace, and neither do
their order and their number. Nothing is asked of the equality of symbols.
-/

namespace Descent

variable {γ σ δ : Type} [Cursor γ σ] [BEq σ]

namespace Recognizer

theorem accepts_cons (s : σ) (symbols : List σ) (t : σ) :
    accepts (s :: symbols) t = (accepts [s] t || accepts symbols t) := by
  simp [accepts]

/-- Only which symbols are members counts. -/
theorem accepts_congr {symbols symbols' : List σ} (h : ∀ s, s ∈ symbols' ↔ s ∈ symbols) :
    accepts symbols' = accepts symbols := by
  funext t
  rw [Bool.eq_iff_iff]
  simp only [accepts, List.any_eq_true, h]

theorem oneOf_congr {symbols symbols' : List σ} (h : accepts symbols' = accepts symbols) :
    oneOf (γ := γ) symbols' = oneOf symbols := by
  funext c
  simp only [oneOf, h]

theorem oneOf_nil : oneOf (γ := γ) ([] : List σ) = reject := by
  funext c
  cases hs : Cursor.current c with
  | none => simp only [oneOf, hs, reject]
  | some t => simp only [oneOf, hs, reject, accepts, List.any_nil, Bool.false_eq_true, if_false]

/-- What the first member does not accept is left to the others. -/
theorem oneOf_cons (s : σ) (symbols : List σ) :
    oneOf (γ := γ) (s :: symbols) = (oneOf [s]).orElse (oneOf symbols) := by
  funext c
  cases hs : Cursor.current c with
  | none => simp only [oneOf, orElse, hs, pure_bind]
  | some t =>
    simp only [oneOf, orElse, hs, accepts_cons s symbols t]
    cases accepts [s] t <;> simp [succeed]

theorem oneOf_eq_choice (symbols : List σ) :
    oneOf (γ := γ) symbols = choice (symbols.map fun s => oneOf [s]) := by
  induction symbols with
  | nil => rw [oneOf_nil, List.map_nil, choice]
  | cons s symbols ih => rw [oneOf_cons, ih, List.map_cons, choice_cons]

theorem oneOf_success_iff {symbols : List σ} {c rest : γ} {s : σ} :
    (oneOf symbols c).result? = some (.ok (.success s rest)) ↔
      Cursor.current c = some s ∧ accepts symbols s = true ∧ rest = Cursor.advance c := by
  cases hs : Cursor.current c with
  | none => simp [oneOf, hs]
  | some t =>
    cases haccepts : accepts symbols t with
    | true =>
      simp only [oneOf, hs, haccepts, succeed, if_true, Run.result?_pure, Option.some.injEq,
        Except.ok.injEq, Outcome.success.injEq]
      constructor
      · rintro ⟨rfl, rfl⟩
        exact ⟨rfl, haccepts, rfl⟩
      · rintro ⟨rfl, -, rfl⟩
        exact ⟨rfl, rfl⟩
    | false =>
      simp only [oneOf, hs, haccepts, Bool.false_eq_true, if_false, Run.result?_pure,
        Option.some.injEq, Except.ok.injEq, reduceCtorEq, false_iff]
      rintro ⟨rfl, h, -⟩
      cases haccepts.symm.trans h

end Recognizer

namespace Parser

variable [LawfulCursor γ] (r : Registry σ δ)

theorem parse_oneOf_choice (symbols : List σ) :
    (oneOf symbols).parse (γ := γ) r = (choice (symbols.map symbol)).parse r := by
  rw [parse_oneOf, Recognizer.oneOf_eq_choice, Recognizer.choice_action, parse_choice,
    List.map_map, List.map_map]
  exact congrArg Recognizer.choice (List.map_congr_left fun s _ => (parse_oneOf r [s]).symm)

/-- Repetitions of parsers that run alike run alike. -/
theorem parse_many_congr {p q : Parser σ δ} (h : p.parse (γ := γ) r = q.parse r) (min : Nat) :
    (many p min).parse (γ := γ) r = (many q min).parse r := by
  funext c
  rw [parse_many r p min (Nat.lt_succ_self _), parse_many r q min (Nat.lt_succ_self _), h]

/-- A set of symbols does what the choice between its members does. It matches where a member equals
the symbol ahead, and yields that symbol and not the member. So neither the order of the members nor
how often each is given makes a difference, and a repetition of the set is one of the choice. -/
theorem parse_oneOf_eq_choice (symbols : List σ) :
    (oneOf symbols).parse (γ := γ) r = (choice (symbols.map symbol)).parse r ∧
    (∀ (c : γ) value rest,
      ((oneOf symbols).parse r c).result? = some (.ok (.success value rest)) ↔
        ∃ s, Cursor.current c = some s ∧ (∃ t ∈ symbols, (t == s) = true) ∧
          value = .symbol s ∧ rest = Cursor.advance c) ∧
    (∀ symbols', (∀ s, s ∈ symbols' ↔ s ∈ symbols) →
      (oneOf symbols').parse (γ := γ) r = (oneOf symbols).parse r ∧
      (choice (symbols'.map symbol)).parse (γ := γ) r = (choice (symbols.map symbol)).parse r) ∧
    ∀ min, (many (oneOf symbols) min).parse (γ := γ) r =
      (many (choice (symbols.map symbol)) min).parse r := by
  refine ⟨parse_oneOf_choice r symbols, fun c value rest => ?_, fun symbols' h => ?_, ?_⟩
  · rw [parse_oneOf, Recognizer.action_success_iff]
    simp only [Recognizer.oneOf_success_iff, Recognizer.accepts, List.any_eq_true]
    constructor
    · rintro ⟨s, ⟨hs, haccepts, hrest⟩, rfl⟩
      exact ⟨s, hs, haccepts, rfl, hrest⟩
    · rintro ⟨s, hs, haccepts, rfl, hrest⟩
      exact ⟨s, ⟨hs, haccepts, hrest⟩, rfl⟩
  · have hset : (oneOf symbols').parse (γ := γ) r = (oneOf symbols).parse r := by
      rw [parse_oneOf, parse_oneOf, Recognizer.oneOf_congr (Recognizer.accepts_congr h)]
    exact ⟨hset, by rw [← parse_oneOf_choice, ← parse_oneOf_choice, hset]⟩
  · exact parse_many_congr r (parse_oneOf_choice r symbols)

end Parser

namespace Operands

def one : Token := ⟨"num", "1"⟩

def seven : Token := ⟨"num", "7"⟩

/-- A token that equals nothing, and not itself either. -/
def undefined : Token := ⟨"nan", "0/0"⟩

/-- A number is found though it is not the one in the set, and the undefined token is not found
though it is in the set. So a repetition ends before it. -/
theorem number_parse_oneOf :
    let input := #[seven, undefined]
    ((Parser.oneOf [undefined, one]).parse (Registry.empty : Registry Token Unit)
        (SliceCursor.ofArray input)).result? =
      some (.ok (.success (.symbol seven) (.reading input 1))) ∧
    ((Parser.oneOf [one, undefined, one]).parse (Registry.empty : Registry Token Unit)
        (SliceCursor.ofArray input)).result? =
      some (.ok (.success (.symbol seven) (.reading input 1))) ∧
    (∀ value rest, ((Parser.choice [.symbol undefined, .symbol one]).parse
        (Registry.empty : Registry Token Unit) (SliceCursor.reading input 1)).result? ≠
      some (.ok (.success value rest))) ∧
    ((Parser.many (.choice [.symbol undefined, .symbol one]) 1).parse
        (Registry.empty : Registry Token Unit) (SliceCursor.ofArray input)).result? =
      some (.ok (.success (.list [.symbol seven]) (.reading input 1))) := by
  intro input
  obtain ⟨hchoice, hsuccess, hmembers, hmany⟩ := Parser.parse_oneOf_eq_choice
    (γ := SliceCursor Token) (Registry.empty : Registry Token Unit) [undefined, one]
  have hfound := (hsuccess (.ofArray input) (.symbol seven) (.reading input 1)).mpr
    ⟨seven, rfl, ⟨one, by simp, by decide⟩, rfl, rfl⟩
  refine ⟨hfound, ?_, fun value rest h => ?_, ?_⟩
  · rw [(hmembers [one, undefined, one] fun s => by simp [or_comm]).1, hfound]
  · have hchosen : (Parser.choice [.symbol undefined, .symbol one]).parse (γ := SliceCursor Token)
        (Registry.empty : Registry Token Unit) = (Parser.oneOf [undefined, one]).parse _ :=
      hchoice.symm
    rw [hchosen] at h
    obtain ⟨s, hs, ⟨t, ht, heq⟩, -, -⟩ := (hsuccess _ _ _).mp h
    obtain rfl : undefined = s := Option.some.inj hs
    rw [Token.beq_iff] at heq
    exact heq.2 heq.1
  · have hrepeated : (Parser.many (.choice [.symbol undefined, .symbol one]) 1).parse
        (γ := SliceCursor Token) (Registry.empty : Registry Token Unit) =
          (Parser.many (.oneOf [undefined, one]) 1).parse _ := (hmany 1).symm
    rw [hrepeated]
    rfl

end Operands

end Descent
