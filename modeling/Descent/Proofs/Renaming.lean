import Descent.Cursor.Slice
import Descent.Grammar.Bindings
import Descent.Proofs.Reachable
import Descent.Proofs.Simulation
import Descent.Symbol.Token

/-!
# Symbols under other names

A grammar without actions compares symbols and passes them on, and does nothing else with them. So
symbols may be replaced throughout, in the input and in the grammar, as long as a symbol of a set
and one of the input stay as equal or unequal as they were. The equality need not be reflexive.
-/

namespace Descent

open Recognizer (Refines)

variable {σ τ δ : Type}

/-- Replaces the value of a match and its rest. -/
def Outcome.bimap {γ γ' α β : Type} (f : α → β) (g : γ → γ') : Outcome γ α → Outcome γ' β
  | success value rest => success (f value) (g rest)
  | failure => failure

/-- The same place over other symbols. -/
def SliceCursor.map (f : σ → τ) : SliceCursor σ → SliceCursor τ
  | reading data index => reading (data.map f) index
  | ended data => ended (data.map f)

namespace SliceCursor

variable (f : σ → τ) (c : SliceCursor σ)

theorem current_map : Cursor.current (c.map f) = (Cursor.current c).map f := by
  cases c with
  | reading data index => exact Array.getElem?_map
  | ended data => rfl

theorem advance_map : Cursor.advance (c.map f) = (Cursor.advance c).map f := by
  cases c with
  | reading data index =>
    simp only [Cursor.advance, map, advance, Array.size_map]
    split <;> rfl
  | ended data => rfl

theorem position_map : Cursor.position (c.map f) = Cursor.position c := by
  cases c with
  | reading data index => rfl
  | ended data => exact Array.size_map

theorem remaining_map : Cursor.remaining (c.map f) = (Cursor.remaining c).map f := by
  cases c with
  | reading data index => simp [Cursor.remaining, map, remaining, List.map_drop]
  | ended data => rfl

end SliceCursor

theorem Value.corresponds_mapSymbols (f : σ → τ) {R : σ → τ → Prop}
    (hR : ∀ s s', R s s' → s' = f s) :
    Corresponds R (fun (v : Value σ δ) (v' : Value τ δ) => v' = v.mapSymbols f) where
  symbol hs := by rw [hR _ _ hs, mapSymbols]
  absent := rfl
  present hv := by rw [hv, mapSymbols]
  pair hv hw := by rw [hv, hw, mapSymbols]
  list := by
    intro vs vs' hvs
    have hmap : vs' = vs.map (mapSymbols f) := by
      induction hvs with
      | nil => rfl
      | cons hv _ ih => rw [hv, ih, List.map_cons]
    rw [hmap, mapSymbols, mapSymbolsOfList_eq_map]

/-- If neither run gets further than the other one and the values of the second are those of the
first under a function, so is the whole of the second. -/
theorem Run.eq_map_of_refines {α β : Type} {f : α → β} {W : β → α → Prop} {x : Run α}
    {y : Run β} (h : Run.Refines Eq (fun a b => b = f a) x y) (h' : Run.Refines Eq W y x) :
    y = f <$> x := by
  rw [map_eq_pure_bind]
  cases h with
  | unfinished =>
    cases h' with
    | unfinished => rfl
  | error e hevents =>
    rw [List.forall₂_eq_eq_eq] at hevents
    rw [hevents, finished_error_bind]
  | value hevents hab =>
    rw [List.forall₂_eq_eq_eq] at hevents
    rw [hevents, hab, finished_ok_bind, pure_def, after_finished, List.append_nil]

namespace Parser

/-- The second parser is the first one with other symbols in its sets and literals. There are no
actions, and a reference to a name in `g` becomes one to the same name in `g'` if `Names g g'` holds
of the name. -/
inductive Renamed (f : σ → τ) (Names : GrammarId → GrammarId → String → Prop) :
    Parser σ δ → Parser τ δ → Prop
  | oneOf (symbols : List σ) : Renamed f Names (.oneOf symbols) (.oneOf (symbols.map f))
  | anySymbol : Renamed f Names .anySymbol .anySymbol
  | endOfInput (v : Value σ δ) : Renamed f Names (.endOfInput v) (.endOfInput (v.mapSymbols f))
  | sequence {ps : List (Parser σ δ)} {ps' : List (Parser τ δ)} :
      List.Forall₂ (Renamed f Names) ps ps' → Renamed f Names (.sequence ps) (.sequence ps')
  | select {ps : List (Parser σ δ)} {ps' : List (Parser τ δ)} (index : Nat) :
      List.Forall₂ (Renamed f Names) ps ps' →
      Renamed f Names (.select ps index) (.select ps' index)
  | pair {p q : Parser σ δ} {p' q' : Parser τ δ} :
      Renamed f Names p p' → Renamed f Names q q' → Renamed f Names (.pair p q) (.pair p' q')
  | choice {ps : List (Parser σ δ)} {ps' : List (Parser τ δ)} :
      List.Forall₂ (Renamed f Names) ps ps' → Renamed f Names (.choice ps) (.choice ps')
  | optional {p : Parser σ δ} {p' : Parser τ δ} :
      Renamed f Names p p' → Renamed f Names (.optional p) (.optional p')
  | optionalOr {p : Parser σ δ} {p' : Parser τ δ} (v : Value σ δ) :
      Renamed f Names p p' → Renamed f Names (.optionalOr p v) (.optionalOr p' (v.mapSymbols f))
  | many {p : Parser σ δ} {p' : Parser τ δ} (min : Nat) :
      Renamed f Names p p' → Renamed f Names (.many p min) (.many p' min)
  | reference {g g' : GrammarId} {name : String} :
      Names g g' name → Renamed f Names (.reference g name) (.reference g' name)

end Parser

/-- What is bound to corresponding names differs in its symbols alone, or the names are unbound in
the same way. -/
def Registry.Renamed (f : σ → τ) (Names : GrammarId → GrammarId → String → Prop)
    (r : Registry σ δ) (r' : Registry τ δ) : Prop :=
  ∀ g g' name, Names g g' name →
    Parser.Finds (Parser.Renamed f Names) (r.resolve g name) (r'.resolve g' name)

namespace Lockstep

variable (f : σ → τ) (X : σ → Prop)

/-- The same place over other symbols, with only symbols in `X` ahead. -/
def Mapped (c : SliceCursor σ) (c' : SliceCursor τ) : Prop :=
  c' = c.map f ∧ ∀ x ∈ Cursor.remaining c, X x

theorem mapped_stepsKeep : StepsKeep (Mapped f X) where
  length_eq := by
    rintro c _ ⟨rfl, -⟩
    rw [SliceCursor.remaining_map, List.length_map]
  advance := by
    rintro c _ ⟨rfl, hX⟩ _
    refine ⟨SliceCursor.advance_map f c, fun x hx => hX x ?_⟩
    rw [LawfulCursor.remaining_advance] at hx
    exact List.mem_of_mem_tail hx

/-- The lockstep of a cursor and its image. -/
def mapped : Lockstep (SliceCursor σ) (SliceCursor τ) :=
  ofSteps (mapped_stepsKeep f X) Eq
    (by rintro c _ n ⟨rfl, -⟩; rw [SliceCursor.position_map])
    (by rintro c _ name ⟨rfl, -⟩; rw [SliceCursor.position_map])

/-- The lockstep of the image of a cursor and the cursor. -/
def mappedBack : Lockstep (SliceCursor τ) (SliceCursor σ) :=
  ofSteps (mapped_stepsKeep f X).flip Eq
    (by rintro _ c n ⟨rfl, -⟩; rw [SliceCursor.position_map])
    (by rintro _ c name ⟨rfl, -⟩; rw [SliceCursor.position_map])

theorem mapped_current {c : SliceCursor σ} {c' : SliceCursor τ} (h : Mapped f X c c') :
    Option.Rel (fun s s' => X s ∧ s' = f s) (Cursor.current c) (Cursor.current c') := by
  obtain ⟨rfl, hX⟩ := h
  rw [SliceCursor.current_map]
  cases hs : Cursor.current c with
  | none => exact .none
  | some s =>
    have hmem : s ∈ Cursor.remaining c := by
      rw [Cursor.remaining_eq_cons_of_current hs]
      exact List.mem_cons_self
    exact .some ⟨hX s hmem, rfl⟩

theorem mapped_reads : (mapped f X).Reads fun s s' => X s ∧ s' = f s :=
  ofSteps_reads fun _ _ hc => mapped_current f X hc

theorem mappedBack_reads : (mappedBack f X).Reads (flip fun s s' => X s ∧ s' = f s) := by
  apply ofSteps_reads
  intro c' c hc
  have hrel := mapped_current f X hc
  generalize Cursor.current c = o at hrel ⊢
  generalize Cursor.current c' = o' at hrel ⊢
  cases hrel with
  | none => exact .none
  | some hs => exact .some hs

end Lockstep

namespace Parser

variable [BEq σ] [BEq τ] {f : σ → τ} {Names : GrammarId → GrammarId → String → Prop}
variable {r : Registry σ δ} {r' : Registry τ δ} {p q : Parser σ δ} {p' q' : Parser τ δ}

/-- The function keeps the equality of the symbol with every symbol that a parser within reach
looks for. -/
def Kept (f : σ → τ) (r : Registry σ δ) (p : Parser σ δ) (x : σ) : Prop :=
  ∀ symbols, Reachable r p (.oneOf symbols) → ∀ s ∈ symbols, (f s == f x) = (s == x)

theorem accepts_map {symbols : List σ} {x : σ} (h : ∀ s ∈ symbols, (f s == f x) = (s == x)) :
    Recognizer.accepts (symbols.map f) (f x) = Recognizer.accepts symbols x := by
  rw [Recognizer.accepts, Recognizer.accepts, List.any_map, Bool.eq_iff_iff, List.any_eq_true,
    List.any_eq_true]
  refine exists_congr fun s => and_congr_right fun hs => ?_
  rw [Function.comp_apply, h s hs]

theorem Renamed.congruent (hr : r.Renamed f Names r') (hq : q.Renamed f Names q')
    (hreach : Reachable r p q) :
    Congruent r r' (fun s s' => Kept f r p s ∧ s' = f s) (fun v v' => v' = v.mapSymbols f)
      (fun q q' => Reachable r p q ∧ q.Renamed f Names q') q q' := by
  have hparts {ps : List (Parser σ δ)} {ps' : List (Parser τ δ)}
      (h : List.Forall₂ (Renamed f Names) ps ps') (hps : ∀ q ∈ ps, Reachable r p q) :
      List.Forall₂ (fun q q' => Reachable r p q ∧ q.Renamed f Names q') ps ps' :=
    (List.forall₂_and_left _ _).mpr ⟨hps, h⟩
  cases hq with
  | oneOf symbols =>
    refine .oneOf ?_
    rintro s _ ⟨hs, rfl⟩
    exact (accepts_map (hs symbols hreach)).symm
  | anySymbol => exact .anySymbol
  | endOfInput v => exact .endOfInput rfl
  | sequence hps => exact .sequence (hparts hps fun q hq => hreach.part hq)
  | select index hps => exact .select index (hparts hps fun q hq => hreach.part hq)
  | choice hps => exact .choice (hparts hps fun q hq => hreach.part hq)
  | pair hp hq =>
    exact .pair ⟨hreach.part List.mem_cons_self, hp⟩
      ⟨hreach.part (List.mem_cons_of_mem _ List.mem_cons_self), hq⟩
  | optional hp => exact .optional ⟨hreach.part List.mem_cons_self, hp⟩
  | optionalOr v hp => exact .optionalOr ⟨hreach.part List.mem_cons_self, hp⟩ rfl
  | many min hp => exact .many min ⟨hreach.part List.mem_cons_self, hp⟩
  | @reference g g' name hname =>
    have hfinds := hr g g' name hname
    refine .reference ?_
    generalize hbody : r.resolve g name = found at hfinds ⊢
    generalize r'.resolve g' name = found' at hfinds ⊢
    cases hfinds with
    | error e => exact .error e
    | body hp => exact .body ⟨hreach.body hbody, hp⟩

/-- Parsing with other symbols throughout makes the same of the input with other symbols: it sends
the same events, ends as the parse with the old symbols does, if that does, and puts the new symbols
into the value and into the rest. -/
theorem parse_map (hr : r.Renamed f Names r') (hp : p.Renamed f Names p') (c : SliceCursor σ)
    (hf : ∀ x ∈ Cursor.remaining c, Kept f r p x) :
    p'.parse r' (c.map f) =
      Outcome.bimap (Value.mapSymbols f) (SliceCursor.map f) <$> p.parse r c := by
  have hV := Value.corresponds_mapSymbols (δ := δ) f
    (R := fun s s' => Kept f r p s ∧ s' = f s) fun _ _ hs => hs.2
  have hforth : Simulates r r' _ _ (Lockstep.mapped f (Kept f r p))
      fun q q' => Reachable r p q ∧ q.Renamed f Names q' :=
    fun q q' hq => .inl ⟨hq.2.congruent hr hq.1, fun _ => Lockstep.mapped_reads f (Kept f r p)⟩
  have hback : Simulates r' r _ _ (Lockstep.mappedBack f (Kept f r p))
      (flip fun q q' => Reachable r p q ∧ q.Renamed f Names q') :=
    fun q' q hq => .inl ⟨(hq.2.congruent hr hq.1).symm fun _ _ => id,
      fun _ => Lockstep.mappedBack_reads f (Kept f r p)⟩
  have hc : Lockstep.Mapped f (Kept f r p) c (c.map f) := ⟨rfl, hf⟩
  have hright := hforth.parse_refines hV ⟨.self, hp⟩ c (c.map f) (Lockstep.ofSteps_moves_self hc)
  have hleft := hback.parse_refines hV.flip ⟨.self, hp⟩ (c.map f) c
    (Lockstep.ofSteps_moves_self hc)
  refine Run.eq_map_of_refines (hright.mono fun o o' ho => ?_) hleft
  cases ho with
  | failure => rfl
  | success hv hd =>
    have hrest := ((Lockstep.mapped f (Kept f r p)).stay hd).1.1
    rw [hv, hrest, Outcome.bimap]

end Parser

namespace Amounts

def grammar : GrammarId := ⟨0⟩

/-- The kind of a token alone. -/
def erase (t : Token) : Token := ⟨t.kind, ""⟩

variable (f : Token → Token)

/-- Numbers in a row. The other member of the set is equal to nothing. -/
def numbers : Parser Token Unit := .many (.oneOf [f ⟨"number", "0"⟩, f ⟨"nan", "0"⟩]) 1

def rules : Registry Token Unit := Registry.empty.create.2.bind grammar "numbers" (numbers f)

/-- Numbers, a unit that is euros if none is given, and any token at the end. -/
def amount : Parser Token Unit :=
  .sequence
    [.reference grammar "numbers",
      .optionalOr (.symbol (f ⟨"unit", "EUR"⟩)) (.symbol (f ⟨"unit", "EUR"⟩)),
      .anySymbol, .endOfInput (.symbol (f ⟨"end", "."⟩))]

def Names (g g' : GrammarId) (name : String) : Prop :=
  g = grammar ∧ g' = grammar ∧ name = "numbers"

theorem rules_renamed : (rules id).Renamed erase Names (rules erase) := by
  rintro g g' name ⟨rfl, rfl, rfl⟩
  have hnumbers (f : Token → Token) : (rules f).resolve grammar "numbers" = .ok (numbers f) := rfl
  rw [hnumbers, hnumbers]
  exact .body (.many 1 (.oneOf [Token.mk "number" "0", Token.mk "nan" "0"]))

theorem amount_renamed : (amount id).Renamed erase Names (amount erase) :=
  .sequence (.cons (.reference ⟨rfl, rfl, rfl⟩)
    (.cons (.optionalOr (.symbol (Token.mk "unit" "EUR")) (.oneOf [Token.mk "unit" "EUR"]))
      (.cons .anySymbol (.cons (.endOfInput (.symbol (Token.mk "end" "."))) .nil))))

/-- The last token is equal to nothing, itself included. -/
def input : Array Token := #[⟨"number", "7"⟩, ⟨"number", "5"⟩, ⟨"nan", "?"⟩]

/-- A parser that reads kinds alone does not mind that the texts of the tokens are erased. -/
theorem amount_parse_map :
    (rules id).Renamed erase Names (rules erase) ∧
    (amount id).Renamed erase Names (amount erase) ∧
    (∀ x ∈ Cursor.remaining (SliceCursor.ofArray input),
      Parser.Kept erase (rules id) (amount id) x) ∧
    (amount erase).parse (rules erase) ((SliceCursor.ofArray input).map erase) =
      Outcome.bimap (Value.mapSymbols erase) (SliceCursor.map erase) <$>
        (amount id).parse (rules id) (SliceCursor.ofArray input) ∧
    ((amount id).parse (rules id) (SliceCursor.ofArray input)).result? =
      some (.ok (.success (.list [.list [.symbol ⟨"number", "7"⟩, .symbol ⟨"number", "5"⟩],
        .symbol ⟨"unit", "EUR"⟩, .symbol ⟨"nan", "?"⟩, .symbol ⟨"end", "."⟩]) (.ended input))) := by
  have hkept (x : Token) (_ : x ∈ Cursor.remaining (SliceCursor.ofArray input)) :
      Parser.Kept erase (rules id) (amount id) x := fun _ _ _ _ => rfl
  exact ⟨rules_renamed, amount_renamed, hkept,
    Parser.parse_map rules_renamed amount_renamed (SliceCursor.ofArray input) hkept, rfl⟩

end Amounts

end Descent
