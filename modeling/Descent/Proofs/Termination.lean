import Descent.Proofs.Consumption
import Mathlib.Data.Fintype.Order
import Mathlib.Logic.Relation
import Mathlib.Order.WellFounded

/-!
# Termination without left recursion

A rule calls another on its left when it can come to it before it has read anything. When no rule
calls itself on its left, be it through others, every parse ends, also one that repeats parsers
which match without reading. The measure is threefold: the symbols ahead, then the left calls below
a rule, then the height of a parser.
-/

namespace Descent

open Cursor (Reaches)

variable {γ σ δ ι α β : Type}

/-- The rules that a parser refers to with nothing but nullable parsers before the reference. -/
inductive LeftReference (r : Registry σ δ) : Parser σ δ → GrammarId × String → Prop
  | reference (g : GrammarId) (name : String) : LeftReference r (.reference g name) (g, name)
  | sequence {ps : List (Parser σ δ)} {i : Nat} {p : Parser σ δ} {x : GrammarId × String} :
      ps[i]? = some p → (∀ q ∈ ps.take i, Nullable r q) → LeftReference r p x →
      LeftReference r (.sequence ps) x
  | select {ps : List (Parser σ δ)} {i : Nat} {p : Parser σ δ} {x : GrammarId × String}
      (index : Nat) :
      ps[i]? = some p → (∀ q ∈ ps.take i, Nullable r q) → LeftReference r p x →
      LeftReference r (.select ps index) x
  | first {p : Parser σ δ} {x : GrammarId × String} (q : Parser σ δ) :
      LeftReference r p x → LeftReference r (.pair p q) x
  | second {p q : Parser σ δ} {x : GrammarId × String} :
      Nullable r p → LeftReference r q x → LeftReference r (.pair p q) x
  | choice {ps : List (Parser σ δ)} {p : Parser σ δ} {x : GrammarId × String} :
      p ∈ ps → LeftReference r p x → LeftReference r (.choice ps) x
  | optional {p : Parser σ δ} {x : GrammarId × String} :
      LeftReference r p x → LeftReference r (.optional p) x
  | optionalOr {p : Parser σ δ} {x : GrammarId × String} (sentinel : Value σ δ) :
      LeftReference r p x → LeftReference r (.optionalOr p sentinel) x
  | many {p : Parser σ δ} {x : GrammarId × String} (min : Nat) :
      LeftReference r p x → LeftReference r (.many p min) x
  | action {p : Parser σ δ} {x : GrammarId × String} (f : Value σ δ → Value σ δ) :
      LeftReference r p x → LeftReference r (.action p f) x

/-- The body of the rule `x` refers to the rule `y` on its left. -/
def LeftCalls (r : Registry σ δ) (x y : GrammarId × String) : Prop :=
  ∃ body, r.resolve x.1 x.2 = .ok body ∧ LeftReference r body y

namespace Recognizer

def Ends (p : Recognizer γ α) (c : γ) : Prop := (p c).result? ≠ none

theorem Ends.action {p : Recognizer γ α} {c : γ} (h : p.Ends c) (f : α → β) :
    (p.action f).Ends c := by
  intro hnone
  exact h (action_ends_iff.mp hnone)

theorem Ends.andThen {p : Recognizer γ α} {next : α → Recognizer γ β} {c : γ} (h : p.Ends c)
    (hnext : ∀ value rest, (p c).result? = some (.ok (.success value rest)) →
      (next value).Ends rest) : (p.andThen next).Ends c := by
  intro hnone
  rw [result?_andThen] at hnone
  split at hnone
  next hp => exact h hp
  · cases hnone
  · cases hnone
  next value rest hp => exact hnext value rest hp hnone

theorem Ends.optionalOr {p : Recognizer γ α} {c : γ} (h : p.Ends c) (absent : α) :
    (p.optionalOr absent).Ends c := by
  intro hnone
  rw [result?_optionalOr] at hnone
  split at hnone
  · cases hnone
  · exact h hnone

variable {run : ι → Recognizer γ α} {c : γ}

theorem Ends.choice {is : List ι} (h : ∀ i ∈ is, (run i).Ends c) :
    (Recognizer.choice (is.map run)).Ends c := by
  induction is with
  | nil => exact nofun
  | cons i is ih =>
    intro hnone
    rw [List.map_cons, result?_choice_cons] at hnone
    split at hnone
    · exact ih (fun j hj => h j (List.mem_cons_of_mem i hj)) hnone
    · exact h i List.mem_cons_self hnone

/-- A sequence ends when each element ends where those before it have led. -/
theorem Ends.sequence {is : List ι}
    (h : ∀ (j : Nat) i values d, is[j]? = some i →
      (Recognizer.sequence ((is.take j).map run) c).result? = some (.ok (.success values d)) →
      (run i).Ends d) :
    (Recognizer.sequence (is.map run)).Ends c := by
  induction is generalizing c with
  | nil => exact nofun
  | cons i is ih =>
    have hfirst : (run i).Ends c := h 0 i [] c rfl rfl
    refine hfirst.andThen fun value middle hvalue => Ends.action (ih ?_) (value :: ·)
    intro j i' values d hj hprefix
    refine h (j + 1) i' (value :: values) d hj ?_
    rw [List.take_succ_cons, List.map_cons, Recognizer.sequence]
    apply andThen_success_iff.mpr
    exact ⟨value, middle, hvalue, action_success_iff.mpr ⟨values, hprefix, rfl⟩⟩

theorem Ends.select {is : List ι} (h : (Recognizer.sequence (is.map run)).Ends c) (index : Nat) :
    (Recognizer.select (is.map run) index).Ends c := by
  apply h.andThen
  intro values d _
  split
  · exact nofun
  · exact nofun

variable [Cursor γ σ]

theorem ends_oneOf [BEq σ] (symbols : List σ) (c : γ) : (Recognizer.oneOf symbols).Ends c := by
  intro hnone
  simp only [Recognizer.oneOf] at hnone
  split at hnone
  · split at hnone
    · cases hnone
    · cases hnone
  · cases hnone

theorem ends_anySymbol (c : γ) : Recognizer.anySymbol.Ends c := by
  intro hnone
  simp only [Recognizer.anySymbol] at hnone
  split at hnone
  · cases hnone
  · cases hnone

theorem ends_endOfInput (value : α) (c : γ) : (Recognizer.endOfInput value).Ends c := by
  intro hnone
  simp only [Recognizer.endOfInput] at hnone
  split at hnone
  · cases hnone
  · cases hnone

theorem ends_many_iff {p : Recognizer γ α} {budget min : Nat} {c : γ} :
    (Recognizer.many budget p min).Ends c ↔ (p.row budget 0 c).result? ≠ none := by
  rw [Ends, result?_many, ne_eq, Option.map_eq_none_iff]

end Recognizer

namespace Parser

open Recognizer (Ends)

variable [Cursor γ σ] [LawfulCursor γ] [BEq σ] (r : Registry σ δ)

theorem ends_parse_iff (p : Parser σ δ) {c : γ} {rounds : Nat}
    (hrounds : (Cursor.remaining c).length < rounds) :
    Ends (p.parse r) c ↔ Ends (step r rounds (fun q => q.parse r) p) c := by
  rw [Ends, Ends, parse_eq_step r p hrounds]

/-- After a first round that made progress the repetition goes on where fewer symbols are left. -/
theorem ends_many_of_shorter {p : Parser σ δ} {c : γ} (min : Nat) (hp : Ends (p.parse r) c)
    (hshorter : ∀ d : γ, (Cursor.remaining d).length < (Cursor.remaining c).length →
      ∀ q : Parser σ δ, Ends (q.parse r) d) :
    Ends (Recognizer.many ((Cursor.remaining c).length + 1) (p.parse r) min) c := by
  rw [Recognizer.ends_many_iff, Recognizer.result?_row_succ]
  split
  next hnone => exact absurd hnone hp
  · exact nofun
  · exact nofun
  next value d hvalue =>
    obtain ⟨k, hk, -⟩ := parse_success_reaches_or_nullable r hvalue
    split
    · exact nofun
    next hpos =>
      have hlen := hk.length_remaining
      have hk0 := mt hk.position_eq_iff.mpr hpos
      have hlt : (Cursor.remaining d).length < (Cursor.remaining c).length := by omega
      have hstep := (ends_parse_iff r (.many p min) hlt).mp (hshorter d hlt (.many p min))
      have hmany : Ends (Recognizer.many (Cursor.remaining c).length (p.parse r) min) d :=
        fun hnone => hstep (Recognizer.action_ends_iff.mpr hnone)
      have hrow := Recognizer.ends_many_iff.mp hmany
      rw [Recognizer.result?_row_found _ _ 1 0, ne_eq, Option.map_eq_none_iff]
      exact hrow

/-- A parse ends when it does wherever fewer symbols are left, and when the rules that the parser
refers to on its left end. -/
theorem ends_parse_of_left {c : γ}
    (hshorter : ∀ d : γ, (Cursor.remaining d).length < (Cursor.remaining c).length →
      ∀ q : Parser σ δ, Ends (q.parse r) d)
    (p : Parser σ δ)
    (hleft : ∀ g name body, LeftReference r p (g, name) → r.resolve g name = .ok body →
      Ends (body.parse r) c) :
    Ends (p.parse r) c := by
  induction hheight : p.height using Nat.strongRecOn generalizing p with
  | ind height ih =>
    have hpart (q : Parser σ δ) (hq : q ∈ p.parts)
        (hqleft : ∀ x, LeftReference r q x → LeftReference r p x) : Ends (q.parse r) c := by
      have hlt := height_lt_of_mem_parts hq
      refine ih q.height (hheight ▸ hlt) q (fun g name body hx => ?_) rfl
      exact hleft g name body (hqleft _ hx)
    have hafter {k : Nat} {d : γ} (hd : Reaches k c d) (q : Parser σ δ)
        (hq : k = 0 → Ends (q.parse r) c) : Ends (q.parse r) d := by
      by_cases hk : k = 0
      · obtain rfl := hk
        obtain rfl : d = c := hd.2
        exact hq rfl
      · have hlen := hd.length_remaining
        exact hshorter d (by omega) q
    have hchildren (ps : List (Parser σ δ)) (hps : ∀ q ∈ ps, q ∈ p.parts)
        (hpsleft : ∀ i q x, ps[i]? = some q → (∀ q' ∈ ps.take i, Nullable r q') →
          LeftReference r q x → LeftReference r p x) :
        Ends (Recognizer.sequence (ps.map fun q => q.parse r)) c := by
      apply Ends.sequence
      intro i q values d hq hprefix
      have hreads := Recognizer.ReadsUnless.sequence
        (fun q' (_ : q' ∈ ps.take i) => parse_readsUnless_nullable (γ := γ) r q')
      obtain ⟨k, hk, hnull⟩ := hreads c values d hprefix
      apply hafter hk q
      intro hk0
      exact hpart q (hps q (List.mem_of_getElem? hq)) fun x hx => hpsleft i q x hq (hnull hk0) hx
    rw [ends_parse_iff r p (Nat.lt_succ_self _)]
    cases p with
    | oneOf symbols => exact (Recognizer.ends_oneOf symbols c).action Value.symbol
    | anySymbol => exact (Recognizer.ends_anySymbol c).action Value.symbol
    | endOfInput v => exact Recognizer.ends_endOfInput v c
    | sequence ps =>
      have hps := hchildren ps (fun q hq => hq) fun i q x hq hnull hx => .sequence hq hnull hx
      exact hps.action Value.list
    | select ps index =>
      have hps := hchildren ps (fun q hq => hq) fun i q x hq hnull hx => .select index hq hnull hx
      exact Ends.select hps index
    | pair p q =>
      have hp := hpart p (by simp [parts]) fun x hx => .first q hx
      refine Ends.action (Ends.andThen hp fun value d hvalue => Ends.action ?_ _) _
      obtain ⟨k, hk, hnull⟩ := parse_success_reaches_or_nullable r hvalue
      apply hafter hk q
      intro hk0
      exact hpart q (by simp [parts]) fun x hx => .second (hnull hk0) hx
    | choice ps =>
      apply Ends.choice
      intro q hq
      exact hpart q hq fun x hx => .choice hq hx
    | optional p =>
      have hp := hpart p (by simp [parts]) fun x hx => .optional hx
      exact ((hp.action some).optionalOr none).action Value.ofOption
    | optionalOr p v =>
      have hp := hpart p (by simp [parts]) fun x hx => .optionalOr v hx
      exact hp.optionalOr v
    | many p min =>
      have hp := hpart p (by simp [parts]) fun x hx => .many min hx
      exact (ends_many_of_shorter r min hp hshorter).action Value.list
    | action p f =>
      have hp := hpart p (by simp [parts]) fun x hx => .action f hx
      exact hp.action f
    | reference g name =>
      intro hnone
      cases hres : r.resolve g name with
      | error e => simp [step, hres, Run.ofExcept] at hnone
      | ok body =>
        have hbody : (body.parse r c).result? = none := by
          simpa [step, hres, Run.ofExcept] using hnone
        exact hleft g name body (.reference g name) hres hbody
    | leaf x => exact x.elim

end Parser

namespace Registry

variable (r : Registry σ δ)

/-- The bound names of all grammars that are alive. -/
def rules : List (GrammarId × String) :=
  (List.range r.tables.length).flatMap fun i => (r.names ⟨i⟩).map fun name => (⟨i⟩, name)

theorem mem_rules_of_resolve {g : GrammarId} {name : String} {body : Parser σ δ}
    (h : r.resolve g name = .ok body) : (g, name) ∈ r.rules := by
  obtain ⟨table, htable, hbody⟩ := r.table?_of_resolve h
  obtain ⟨hlt, -⟩ := List.getElem?_eq_some_iff.mp htable
  refine List.mem_flatMap.mpr ⟨g.index, List.mem_range.mpr hlt, ?_⟩
  refine List.mem_map.mpr ⟨name, ?_, rfl⟩
  have hname : name ∈ table := Std.TreeMap.mem_iff_isSome_getElem?.mpr (by rw [hbody]; rfl)
  simp only [names, table?, htable]
  exact Std.TreeMap.mem_keys.mpr hname

/-- Among finitely many rules an acyclic relation has no infinite chains. -/
theorem wellFounded_leftCalls (h : ∀ x, ¬ Relation.TransGen (LeftCalls r) x x) :
    WellFounded (fun y x : {x // x ∈ r.rules} => Relation.TransGen (LeftCalls r) x.1 y.1) := by
  have htrans : IsTrans {x // x ∈ r.rules}
      (fun y x => Relation.TransGen (LeftCalls r) x.1 y.1) :=
    ⟨fun _ _ _ hab hbc => hbc.trans hab⟩
  have hirrefl : Std.Irrefl
      (fun y x : {x // x ∈ r.rules} => Relation.TransGen (LeftCalls r) x.1 y.1) :=
    ⟨fun x hx => h x.1 hx⟩
  exact Finite.wellFounded_of_trans_of_irrefl _

end Registry

namespace Brackets

open Registry

theorem not_nullable_item : ¬ Nullable rules item := by
  intro h
  cases h with
  | choice hp hnull =>
    simp only [List.mem_cons, List.not_mem_nil, or_false] at hp
    obtain rfl | rfl := hp
    · cases hnull with
      | sequence hall =>
        have hopen := hall (.symbol '(') List.mem_cons_self
        cases hopen
    · cases hnull

/-- An item reads a symbol before it comes to a rule. -/
theorem not_leftReference_item (x : GrammarId × String) : ¬ LeftReference rules item x := by
  intro h
  cases h with
  | choice hp hx =>
    simp only [List.mem_cons, List.not_mem_nil, or_false] at hp
    obtain rfl | rfl := hp
    · cases hx with
      | @sequence _ i _ _ hi hnull hx =>
        cases i with
        | zero =>
          obtain rfl := Option.some.inj hi
          cases hx
        | succ i =>
          have hopen := hnull (.symbol '(') (by simp)
          cases hopen
    · cases hx

theorem leftCalls_iff {x y : GrammarId × String} :
    LeftCalls rules x y ↔ x = (grammar, "items") ∧ y = (grammar, "item") := by
  constructor
  · intro h
    obtain ⟨body, hbody, hleft⟩ := h
    obtain ⟨hx, rfl⟩ | ⟨hx, rfl⟩ := resolve_eq_ok hbody
    · exact absurd hleft (not_leftReference_item y)
    · cases hleft with
      | many _ hleft =>
        cases hleft
        exact ⟨hx, rfl⟩
  · intro h
    obtain ⟨rfl, rfl⟩ := h
    exact ⟨items, resolve_items, .many 0 (.reference grammar "item")⟩

theorem not_transGen_leftCalls (x : GrammarId × String) :
    ¬ Relation.TransGen (LeftCalls rules) x x := by
  intro h
  obtain ⟨y, hy, -⟩ := Relation.TransGen.head'_iff.mp h
  obtain ⟨z, -, hz⟩ := Relation.TransGen.tail'_iff.mp h
  have hitems := (leftCalls_iff.mp hy).1
  have hitem := (leftCalls_iff.mp hz).2
  rw [hitems] at hitem
  simp at hitem

end Brackets

namespace Parser

open Recognizer (Ends)

variable [Cursor γ σ] [LawfulCursor γ] [BEq σ] (r : Registry σ δ)

/-- Without left recursion every parse ends: the recursion through rules and the rounds of every
repetition come to an end, also where repeated parsers match without reading. -/
theorem parse_finishes_of_acyclic (h : ∀ x, ¬ Relation.TransGen (LeftCalls r) x x)
    (p : Parser σ δ) (c : γ) : ∃ events result, p.parse r c = .finished events result := by
  suffices hends : ∀ (n : Nat) (c : γ), (Cursor.remaining c).length = n →
      ∀ q : Parser σ δ, Ends (q.parse r) c by
    have hp := hends _ c rfl p
    obtain ⟨result, hresult⟩ := Option.ne_none_iff_exists'.mp hp
    obtain ⟨events, hrun⟩ := Run.result?_eq_some_iff.mp hresult
    exact ⟨events, result, hrun⟩
  intro n
  -- Outside, the symbols ahead become fewer; where they do not, a left call leads down.
  induction n using Nat.strongRecOn with
  | ind n ih =>
    intro c hc
    have hshorter (d : γ) (hd : (Cursor.remaining d).length < (Cursor.remaining c).length) :=
      ih _ (hc ▸ hd) d rfl
    have hrule (x : {x // x ∈ r.rules}) :
        ∀ body, r.resolve x.1.1 x.1.2 = .ok body → Ends (body.parse r) c := by
      induction x using (r.wellFounded_leftCalls h).induction with
      | _ x ihx =>
        intro body hbody
        apply ends_parse_of_left r hshorter body
        intro g name body' hleft hbody'
        have hmem := r.mem_rules_of_resolve hbody'
        exact ihx ⟨(g, name), hmem⟩ (.single ⟨body, hbody, hleft⟩) body' hbody'
    intro q
    apply ends_parse_of_left r hshorter q
    intro g name body _ hbody
    exact hrule ⟨(g, name), r.mem_rules_of_resolve hbody⟩ body hbody

end Parser

/-- A repetition of what can match without reading, on rules without left recursion. -/
theorem Brackets.many_optional_finishes :
    (∀ x, ¬ Relation.TransGen (LeftCalls rules) x x) ∧
    ∃ events result,
      (Parser.many (.optional (.reference grammar "items")) 1).parse rules
        (SliceCursor.reading input 1) = .finished events result :=
  ⟨not_transGen_leftCalls, Parser.parse_finishes_of_acyclic rules not_transGen_leftCalls _ _⟩

end Descent
