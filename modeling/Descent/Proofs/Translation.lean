import Descent.Proofs.Denotation
import Descent.Proofs.Reachable
import Descent.Proofs.Termination

/-!
# Parsers as parsing expressions

Where no reference is unbound, no selection is out of range and no repetition runs on matches that
read nothing, a parser matches just what its parsing expression derives, and goes on without end
just where the expression derives nothing. One direction follows the budget of a run, the other the
derivation.
-/

namespace Descent

open Peg (Expr Derives Agrees Denotes)

variable {γ σ δ ν : Type}

namespace Parser

mutual

/-- The parsing expression of a parser. Values play no part in it. -/
def toPeg [BEq σ] : Parser σ δ → Expr σ (GrammarId × String)
  | oneOf symbols => .oneOf (Recognizer.accepts symbols)
  | anySymbol => .any
  | endOfInput _ => .not .any
  | sequence ps | select ps _ => .seqAll (toPegAll ps)
  | pair p q => .seq p.toPeg q.toPeg
  | choice ps => .choiceAll (toPegAll ps)
  | optional p | optionalOr p _ => .choice p.toPeg .empty
  | many p min => .atLeast min p.toPeg
  | action p _ => p.toPeg
  | reference g name => .rule (g, name)

def toPegAll [BEq σ] : List (Parser σ δ) → List (Expr σ (GrammarId × String))
  | [] => []
  | p :: ps => p.toPeg :: toPegAll ps

end

theorem toPegAll_eq_map [BEq σ] (ps : List (Parser σ δ)) : toPegAll ps = ps.map toPeg := by
  induction ps with
  | nil => rfl
  | cons p ps ih => rw [toPegAll, ih, List.map_cons]

end Parser

def Registry.toPeg [BEq σ] (r : Registry σ δ) (x : GrammarId × String) :
    Option (Expr σ (GrammarId × String)) :=
  (r.binding? x.1 x.2).map Parser.toPeg

theorem Registry.toPeg_of_resolve [BEq σ] {r : Registry σ δ} {g : GrammarId} {name : String}
    {body : Parser σ δ} (h : r.resolve g name = .ok body) :
    r.toPeg (g, name) = some body.toPeg := by
  simp [toPeg, binding?, h, Except.toOption]

namespace Parser

open Recognizer (ReadsUnless Implements)

variable [Cursor γ σ] [BEq σ] {r : Registry σ δ} {p q : Parser σ δ}

/-- What a run can come to is bound, in range, and repeats no match that reads nothing. -/
structure IsPeg (γ : Type) [Cursor γ σ] [BEq σ] (r : Registry σ δ) (p : Parser σ δ) : Prop where
  bound : ∀ g name, Reachable r p (.reference g name) → ∃ body, r.resolve g name = .ok body
  inRange : ∀ ps index, Reachable r p (.select ps index) → index < ps.length
  progress : ∀ q min, Reachable r p (.many q min) → ∀ (c rest : γ) (value : Value σ δ),
    (q.parse r c).result? = some (.ok (.success value rest)) →
      Cursor.remaining rest ≠ Cursor.remaining c

theorem IsPeg.of_reachable (h : IsPeg γ r p) (hq : Reachable r p q) : IsPeg γ r q where
  bound g name hg := h.bound g name (hq.trans hg)
  inRange ps index hps := h.inRange ps index (hq.trans hps)
  progress q' min hmany := h.progress q' min (hq.trans hmany)

theorem IsPeg.part (h : IsPeg γ r p) (hq : q ∈ p.parts) : IsPeg γ r q :=
  h.of_reachable (.part .self hq)

theorem verdict_step_reference {rounds : Nat} {run : Parser σ δ → Recognizer γ (Value σ δ)}
    {g : GrammarId} {name : String} {body : Parser σ δ} (h : r.resolve g name = .ok body) (c : γ) :
    (step r rounds run (.reference g name) c).verdict = (run body c).verdict := by
  simp [Run.verdict, step, h, Run.ofExcept]

variable [LawfulCursor γ]

theorem IsPeg.readsUnless {min : Nat} (h : IsPeg γ r (.many q min)) :
    ReadsUnless False (q.parse (γ := γ) r) := by
  intro c value rest hq
  obtain ⟨k, hk, -⟩ := parse_success_reaches_or_nullable r hq
  refine ⟨k, hk, fun hk0 => ?_⟩
  obtain rfl := hk0
  have hrest : rest = c := hk.2
  exact h.progress q min .self c rest value hq (by rw [hrest])

theorem IsPeg.recognizer_readsUnless {min : Nat} (h : IsPeg γ r (.many q min)) (budget : Nat) :
    ReadsUnless False (recognizer (γ := γ) r budget q) := by
  intro c value rest hq
  have hne : recognizer r budget q c ≠ .unfinished := by
    intro hun
    rw [hun] at hq
    cases hq
  rw [recognizer_eq_parse_of_ne_unfinished r hne] at hq
  exact h.readsUnless c value rest hq

/-- Whatever a budget lets a parser find out is derived by its parsing expression. -/
theorem recognizer_implements (h : IsPeg γ r p) (budget : Nat) :
    Implements r.toPeg p.toPeg (recognizer (γ := γ) r budget p) := by
  induction budget generalizing p with
  | zero => exact fun c => trivial
  | succ budget ih =>
    have hall (ps : List (Parser σ δ)) (hps : ∀ q ∈ ps, q ∈ p.parts) :
        ∀ q ∈ ps, Implements r.toPeg q.toPeg (recognizer (γ := γ) r budget q) :=
      fun q hq => ih (h.part (hps q hq))
    intro c
    cases p with
    | oneOf symbols => exact (Implements.oneOf symbols).action Value.symbol c
    | anySymbol => exact Implements.anySymbol.action Value.symbol c
    | endOfInput value => exact Implements.endOfInput value c
    | sequence ps =>
      rw [toPeg, toPegAll_eq_map]
      exact (Implements.sequence (hall ps fun q hq => hq)).action Value.list c
    | select ps index =>
      rw [toPeg, toPegAll_eq_map]
      exact Implements.select (hall ps fun q hq => hq) (h.inRange ps index .self) c
    | pair p q =>
      have hp := ih (h.part (q := p) (by simp [parts]))
      have hq := ih (h.part (q := q) (by simp [parts]))
      exact (hp.pair hq).action _ c
    | choice ps =>
      rw [toPeg, toPegAll_eq_map]
      exact Implements.choice (hall ps fun q hq => hq) c
    | optional p =>
      have hp := ih (h.part (q := p) (by simp [parts]))
      exact ((hp.action some).optionalOr none).action Value.ofOption c
    | optionalOr p sentinel =>
      have hp := ih (h.part (q := p) (by simp [parts]))
      exact hp.optionalOr sentinel c
    | many p min =>
      have hp := ih (h.part (q := p) (by simp [parts]))
      exact (hp.many (h.recognizer_readsUnless budget) budget min).action Value.list c
    | action p f =>
      have hp := ih (h.part (q := p) (by simp [parts]))
      exact hp.action f c
    | reference g name =>
      obtain ⟨body, hbody⟩ := h.bound g name .self
      have hrun := ih (h.of_reachable (.body .self hbody)) c
      show Agrees r.toPeg _ c (step r budget (recognizer r budget) (.reference g name) c).verdict
      rw [verdict_step_reference hbody]
      exact hrun.mono fun o ho => .rule (Registry.toPeg_of_resolve hbody) ho
    | leaf x => exact x.elim

/-- After a match that reads something a repetition has rounds enough for the rest. -/
theorem IsPeg.andThen_many {min : Nat} (h : IsPeg γ r (.many q min)) (n : Nat) (c : γ) :
    ((q.parse r c).verdict.andThen fun rest =>
        (Recognizer.many (Cursor.remaining c).length (q.parse r) n rest).verdict) =
      (q.parse r c).verdict.andThen fun rest => ((many q n).parse r rest).verdict := by
  apply Verdict.andThen_congr
  intro rest hrest
  obtain ⟨value, hvalue⟩ := Run.verdict_eq_accept_iff.mp hrest
  obtain ⟨k, hk, hk0⟩ := h.readsUnless c value rest hvalue
  have hlen := hk.length_remaining
  have hle := hk.1
  have hshorter : (Cursor.remaining rest).length < (Cursor.remaining c).length := by
    have hpos : k ≠ 0 := fun hzero => hk0 hzero
    omega
  rw [parse_eq_step r (many q n) hshorter]
  exact (Recognizer.verdict_action _ Value.list rest).symm

theorem IsPeg.denotes_many {min : Nat} (h : IsPeg γ r (.many q min)) {known : ν → Prop}
    {run : ν → γ → Verdict γ} {e : Expr σ ν}
    (hq : Denotes known run e fun c => (q.parse (γ := γ) r c).verdict) (n : Nat) :
    Denotes known run (.atLeast n e) fun c => ((many q n).parse (γ := γ) r c).verdict := by
  have hrounds (n : Nat) (c : γ) : ((many q n).parse r c).verdict =
      (Recognizer.many ((Cursor.remaining c).length + 1) (q.parse r) n c).verdict := by
    rw [parse_eq_step r (many q n) (Nat.lt_succ_self _)]
    exact Recognizer.verdict_action _ Value.list c
  induction n with
  | zero =>
    apply Denotes.star hq
    intro c
    rw [hrounds, Recognizer.verdict_many_zero h.readsUnless, h.andThen_many]
  | succ n ih =>
    apply Denotes.seq hq ih
    intro c
    rw [hrounds, Recognizer.verdict_many_succ h.readsUnless, h.andThen_many]

/-- The verdicts of a parser are those that its parsing expression stands for. -/
theorem IsPeg.denotes (h : IsPeg γ r p) :
    Denotes (fun x => IsPeg γ r (.reference x.1 x.2))
      (fun x c => ((reference x.1 x.2).parse r c).verdict) p.toPeg
      fun c => (p.parse (γ := γ) r c).verdict := by
  induction hheight : p.height using Nat.strongRecOn generalizing p with
  | ind height ih =>
    have hparts (q : Parser σ δ) (hq : q ∈ p.parts) :=
      ih q.height (hheight ▸ height_lt_of_mem_parts hq) (h.part hq) rfl
    have hstep (c : γ) : (p.parse r c).verdict =
        (step r ((Cursor.remaining c).length + 1) (fun q => q.parse r) p c).verdict := by
      rw [parse_eq_step r p (Nat.lt_succ_self _)]
    cases p with
    | oneOf symbols =>
      apply Denotes.oneOf
      intro c
      rw [hstep, ← Recognizer.verdict_oneOf]
      exact Recognizer.verdict_action _ Value.symbol c
    | anySymbol =>
      apply Denotes.any
      intro c
      rw [hstep, ← Recognizer.verdict_anySymbol]
      exact Recognizer.verdict_action _ Value.symbol c
    | endOfInput value =>
      apply Denotes.not (.any fun c => rfl)
      intro c
      rw [hstep]
      exact Recognizer.verdict_endOfInput value c
    | sequence ps =>
      rw [toPeg, toPegAll_eq_map]
      apply (Denotes.sequence hparts).congr
      intro c
      rw [hstep]
      exact Recognizer.verdict_action _ Value.list c
    | select ps index =>
      have hindex := h.inRange ps index .self
      rw [toPeg, toPegAll_eq_map]
      apply (Denotes.sequence hparts).congr
      intro c
      rw [hstep]
      exact Recognizer.verdict_select _ (by rwa [List.length_map]) c
    | pair p q =>
      apply Denotes.seq (hparts p (by simp [parts])) (hparts q (by simp [parts]))
      intro c
      rw [hstep, ← Recognizer.verdict_pair]
      exact Recognizer.verdict_action _ _ c
    | choice ps =>
      rw [toPeg, toPegAll_eq_map]
      exact (Denotes.choices hparts).congr hstep
    | optional p =>
      apply Denotes.optional (hparts p (by simp [parts]))
      intro c
      rw [hstep, ← Recognizer.verdict_optional]
      exact Recognizer.verdict_action _ Value.ofOption c
    | optionalOr p sentinel =>
      apply Denotes.optional (hparts p (by simp [parts]))
      intro c
      rw [hstep]
      exact Recognizer.verdict_optionalOr _ sentinel c
    | many p min => exact h.denotes_many (hparts p (by simp [parts])) min
    | action p f =>
      apply (hparts p (by simp [parts])).congr
      intro c
      rw [hstep]
      exact Recognizer.verdict_action _ f c
    | reference g name => exact .rule h
    | leaf x => exact x.elim

/-- The rules that a parser can come to stand for what is bound to them. -/
theorem IsPeg.denotes_rule {x : GrammarId × String} {e : Expr σ (GrammarId × String)}
    (h : IsPeg γ r (.reference x.1 x.2)) (hx : r.toPeg x = some e) :
    Denotes (fun x => IsPeg γ r (.reference x.1 x.2))
      (fun x c => ((reference x.1 x.2).parse r c).verdict) e
      fun c => ((reference x.1 x.2).parse (γ := γ) r c).verdict := by
  obtain ⟨body, hbody⟩ := h.bound x.1 x.2 .self
  obtain rfl : body.toPeg = e :=
    Option.some.inj ((Registry.toPeg_of_resolve hbody).symm.trans hx)
  have hdenotes := (h.of_reachable (.body .self hbody)).denotes
  apply hdenotes.congr
  intro c
  rw [parse_eq_step r (.reference x.1 x.2) (Nat.lt_succ_self _), verdict_step_reference hbody]

theorem IsPeg.agrees (h : IsPeg γ r p) (c : γ) :
    Agrees r.toPeg p.toPeg c (p.parse r c).verdict :=
  recognizer_implements h (budget r p c) c

theorem IsPeg.shows_iff_derives (h : IsPeg γ r p) (c : γ) (o : Option (List σ)) :
    Verdict.Shows c o (p.parse r c).verdict ↔ Derives r.toPeg p.toPeg (Cursor.remaining c) o := by
  constructor
  · intro hshows
    have hagrees := h.agrees c
    cases o with
    | none =>
      have hreject : (p.parse r c).verdict = .reject := hshows
      rw [hreject] at hagrees
      exact hagrees
    | some x =>
      obtain ⟨rest, haccept, hx⟩ := hshows
      rw [haccept] at hagrees
      obtain ⟨y, hy, hderives⟩ := hagrees
      obtain rfl : y = x := List.append_cancel_right (hy.symm.trans hx)
      exact hderives
  · intro hderives
    exact Denotes.shows (fun x e hx he => hx.denotes_rule he) hderives h.denotes rfl

/-- A run without end is an expression without a derivation. -/
theorem IsPeg.parse_unfinished_iff (h : IsPeg γ r p) (c : γ) :
    p.parse r c = .unfinished ↔ ∀ o, ¬ Derives r.toPeg p.toPeg (Cursor.remaining c) o := by
  rw [← Run.verdict_eq_none_iff]
  constructor
  · intro hnone o hderives
    have hshows := (h.shows_iff_derives c o).mpr hderives
    rw [hnone] at hshows
    cases o with
    | none => cases hshows
    | some x =>
      obtain ⟨rest, haccept, -⟩ := hshows
      cases haccept
  · intro hnever
    have hagrees := h.agrees c
    rcases hv : (p.parse r c).verdict with _ | _ | _ | rest
    · rfl
    · rw [hv] at hagrees
      exact hagrees.elim
    · rw [hv] at hagrees
      exact absurd hagrees (hnever none)
    · rw [hv] at hagrees
      obtain ⟨x, -, hderives⟩ := hagrees
      exact absurd hderives (hnever (some x))

end Parser

namespace Brackets

open Descent.Parser (IsPeg)

theorem isPeg_items : IsPeg (SliceCursor Char) rules (.reference grammar "items") where
  bound g name h := by
    obtain ⟨rfl, rfl | rfl⟩ := eq_of_reachable_reference h
    · exact ⟨items, resolve_items⟩
    · exact ⟨item, resolve_item⟩
  inRange _ _ h := (not_reachable_select h).elim
  progress q min h c rest value hvalue := by
    have hmem := mem_reachable h
    simp only [reachable, items, item, Parser.symbol, List.mem_cons, Parser.many.injEq,
      reduceCtorEq, List.not_mem_nil, or_false, false_or] at hmem
    obtain ⟨rfl, -⟩ := hmem
    refine Parser.remaining_ne_of_not_nullable rules (fun hnull => ?_) hvalue
    cases hnull with
    | reference hbody hnull =>
      obtain rfl := Except.ok.inj (resolve_item.symm.trans hbody)
      exact not_nullable_item hnull

/-- A rule that is bound to nothing but itself. -/
def circular : Registry Char Unit :=
  Registry.empty.create.2.bind grammar "item" (.reference grammar "item")

theorem eq_of_reachable_circular {q : Parser Char Unit}
    (h : Parser.Reachable circular (.reference grammar "item") q) :
    q = .reference grammar "item" := by
  induction h with
  | self => rfl
  | part _ hmem ih =>
    rw [ih] at hmem
    cases hmem
  | body _ hres ih =>
    cases ih
    exact (Except.ok.inj hres).symm

theorem isPeg_circular : IsPeg (SliceCursor Char) circular (.reference grammar "item") where
  bound g name h := by
    cases eq_of_reachable_circular h
    exact ⟨.reference grammar "item", rfl⟩
  inRange _ _ h := by cases eq_of_reachable_circular h
  progress _ _ h := by cases eq_of_reachable_circular h

end Brackets

namespace Parser

variable [Cursor γ σ] [BEq σ] [LawfulCursor γ] {r : Registry σ δ} {p : Parser σ δ}

/-- A parser matches exactly the prefixes that its parsing expression derives, fails exactly where
the expression derives a failure, and goes on without end exactly where it derives neither. -/
theorem parse_iff_derives (h : IsPeg γ r p) (c : γ) :
    (∀ x, (∃ value rest, (p.parse r c).result? = some (.ok (.success value rest)) ∧
        Cursor.remaining c = x ++ Cursor.remaining rest) ↔
      Derives r.toPeg p.toPeg (Cursor.remaining c) (some x)) ∧
    ((p.parse r c).result? = some (.ok .failure) ↔
      Derives r.toPeg p.toPeg (Cursor.remaining c) none) ∧
    (p.parse r c = .unfinished ↔ ∀ o, ¬ Derives r.toPeg p.toPeg (Cursor.remaining c) o) := by
  refine ⟨?_, ?_, h.parse_unfinished_iff c⟩
  · intro x
    rw [← h.shows_iff_derives c (some x)]
    constructor
    · intro hmatch
      obtain ⟨value, rest, hresult, hx⟩ := hmatch
      exact ⟨rest, Run.verdict_eq_accept_iff.mpr ⟨value, hresult⟩, hx⟩
    · intro hshows
      obtain ⟨rest, haccept, hx⟩ := hshows
      obtain ⟨value, hresult⟩ := Run.verdict_eq_accept_iff.mp haccept
      exact ⟨value, rest, hresult, hx⟩
  · rw [← h.shows_iff_derives c none]
    exact Run.verdict_eq_reject_iff.symm

end Parser

namespace Brackets

/-- A match of the rule of items, read as a derivation, and a run without end, read as the lack of
any. -/
theorem items_derives :
    Parser.IsPeg (SliceCursor Char) rules (.reference grammar "items") ∧
    Peg.Derives rules.toPeg (.rule (grammar, "items")) ['(', 'x', ')', 'y']
      (some ['(', 'x', ')']) ∧
    Parser.IsPeg (SliceCursor Char) circular (.reference grammar "item") ∧
    ∀ o, ¬ Peg.Derives circular.toPeg (.rule (grammar, "item")) ['(', 'x', ')', 'y'] o := by
  obtain ⟨hmatches, -, -⟩ := Parser.parse_iff_derives isPeg_items (.reading input 1)
  obtain ⟨-, -, hendless⟩ := Parser.parse_iff_derives isPeg_circular (.reading input 1)
  exact ⟨isPeg_items, (hmatches ['(', 'x', ')']).mp ⟨_, _, rfl, rfl⟩, isPeg_circular,
    hendless.mp rfl⟩

end Brackets

end Descent
