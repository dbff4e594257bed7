import Descent.Proofs.Verdict

/-!
# Parsing expression grammars

Parsers as parsing expressions. Expressions have the usual big-step meaning: a relation between an
expression, an input, and either the prefix that the expression consumes or a failure. It is defined
without any of the definitions that run.
-/

namespace Descent

variable {γ σ ν δ α β ι : Type}

namespace Peg

/-- Parsing expressions over symbols `σ` and nonterminals `ν`. -/
inductive Expr (σ ν : Type) where
  | empty
  | any
  /-- A class of symbols. -/
  | oneOf (accepts : σ → Bool)
  | rule (name : ν)
  | seq (first second : Expr σ ν)
  | choice (first second : Expr σ ν)
  | star (e : Expr σ ν)
  | not (e : Expr σ ν)

namespace Expr

/-- The expressions one after the other. -/
def seqAll (es : List (Expr σ ν)) : Expr σ ν := es.foldr seq empty

/-- The expressions in order of preference; without any it matches nothing. -/
def choiceAll (es : List (Expr σ ν)) : Expr σ ν := es.foldr choice (not empty)

/-- The expression `n` times and then as often as it matches. -/
def atLeast : Nat → Expr σ ν → Expr σ ν
  | 0, e => star e
  | n + 1, e => seq e (atLeast n e)

end Expr

/-- On an input the expression consumes a prefix, or it fails. -/
inductive Derives (rules : ν → Option (Expr σ ν)) :
    Expr σ ν → List σ → Option (List σ) → Prop
  | empty (w : List σ) : Derives rules .empty w (some [])
  | any (s : σ) (w : List σ) : Derives rules .any (s :: w) (some [s])
  | any_end : Derives rules .any [] none
  | oneOf {accepts : σ → Bool} {s : σ} (w : List σ) :
      accepts s = true → Derives rules (.oneOf accepts) (s :: w) (some [s])
  | oneOf_other {accepts : σ → Bool} {s : σ} (w : List σ) :
      accepts s = false → Derives rules (.oneOf accepts) (s :: w) none
  | oneOf_end (accepts : σ → Bool) : Derives rules (.oneOf accepts) [] none
  | rule {name : ν} {e : Expr σ ν} {w : List σ} {o : Option (List σ)} :
      rules name = some e → Derives rules e w o → Derives rules (.rule name) w o
  | seq {e e' : Expr σ ν} {w x y z : List σ} :
      w = x ++ y → Derives rules e w (some x) → Derives rules e' y (some z) →
      Derives rules (.seq e e') w (some (x ++ z))
  | seq_first {e : Expr σ ν} {w : List σ} (e' : Expr σ ν) :
      Derives rules e w none → Derives rules (.seq e e') w none
  | seq_second {e e' : Expr σ ν} {w x y : List σ} :
      w = x ++ y → Derives rules e w (some x) → Derives rules e' y none →
      Derives rules (.seq e e') w none
  | choice_first {e : Expr σ ν} {w x : List σ} (e' : Expr σ ν) :
      Derives rules e w (some x) → Derives rules (.choice e e') w (some x)
  | choice_second {e e' : Expr σ ν} {w : List σ} {o : Option (List σ)} :
      Derives rules e w none → Derives rules e' w o → Derives rules (.choice e e') w o
  | star {e : Expr σ ν} {w x y z : List σ} :
      w = x ++ y → Derives rules e w (some x) → Derives rules (.star e) y (some z) →
      Derives rules (.star e) w (some (x ++ z))
  | star_stop {e : Expr σ ν} {w : List σ} :
      Derives rules e w none → Derives rules (.star e) w (some [])
  | not_match {e : Expr σ ν} {w x : List σ} :
      Derives rules e w (some x) → Derives rules (.not e) w none
  | not_fail {e : Expr σ ν} {w : List σ} :
      Derives rules e w none → Derives rules (.not e) w (some [])

/-- A free repetition is one match before another repetition, or nothing. -/
theorem Derives.of_unrolled {rules : ν → Option (Expr σ ν)} {e : Expr σ ν} {w : List σ}
    {o : Option (List σ)} (h : Derives rules (.choice (.seq e (.star e)) .empty) w o) :
    Derives rules (.star e) w o := by
  cases h with
  | choice_first _ hseq =>
    cases hseq with
    | seq hw hfirst hstar => exact .star hw hfirst hstar
  | choice_second hseq hempty =>
    cases hempty
    cases hseq with
    | seq_first _ hfirst => exact .star_stop hfirst
    | seq_second _ _ hstar => cases hstar

/-- What a verdict says of the input from `c` on is what the expression derives there. -/
def Agrees [Cursor γ σ] (rules : ν → Option (Expr σ ν)) (e : Expr σ ν) (c : γ) :
    Verdict γ → Prop
  | none => True
  | some (.error _) => False
  | some (.ok none) => Derives rules e (Cursor.remaining c) none
  | some (.ok (some rest)) => ∃ x, Cursor.remaining c = x ++ Cursor.remaining rest ∧
      Derives rules e (Cursor.remaining c) (some x)

namespace Agrees

variable [Cursor γ σ] {rules : ν → Option (Expr σ ν)} {e e' : Expr σ ν} {c : γ} {v : Verdict γ}

theorem accept_self (h : Derives rules e (Cursor.remaining c) (some [])) :
    Agrees rules e c (.accept c) :=
  ⟨[], rfl, h⟩

theorem andThen {next : γ → Verdict γ} (h : Agrees rules e c v)
    (hnext : ∀ rest, Agrees rules e' rest (next rest)) :
    Agrees rules (.seq e e') c (v.andThen next) := by
  rcases v with _ | _ | _ | rest
  · exact trivial
  · exact h
  · exact .seq_first e' h
  · obtain ⟨x, hx, hfirst⟩ := h
    have hrest := hnext rest
    simp only [Verdict.andThen]
    generalize next rest = v' at hrest ⊢
    rcases v' with _ | _ | _ | last
    · exact trivial
    · exact hrest
    · exact .seq_second hx hfirst hrest
    · obtain ⟨z, hz, hsecond⟩ := hrest
      refine ⟨x ++ z, ?_, .seq hx hfirst hsecond⟩
      rw [List.append_assoc, ← hz, hx]

theorem orElse {other : Verdict γ} (h : Agrees rules e c v) (hother : Agrees rules e' c other) :
    Agrees rules (.choice e e') c (v.orElse other) := by
  rcases v with _ | _ | _ | rest
  · exact trivial
  · exact h
  · simp only [Verdict.orElse]
    rcases other with _ | _ | _ | rest
    · exact trivial
    · exact hother
    · exact .choice_second h hother
    · obtain ⟨x, hx, hsecond⟩ := hother
      exact ⟨x, hx, .choice_second h hsecond⟩
  · obtain ⟨x, hx, hfirst⟩ := h
    exact ⟨x, hx, .choice_first e' hfirst⟩

theorem negate (h : Agrees rules e c v) : Agrees rules (.not e) c (v.negate c) := by
  rcases v with _ | _ | _ | rest
  · exact trivial
  · exact h
  · exact accept_self (.not_fail h)
  · obtain ⟨x, -, hx⟩ := h
    exact Derives.not_match hx

theorem mono (h : Agrees rules e c v)
    (hmono : ∀ o, Derives rules e (Cursor.remaining c) o → Derives rules e' (Cursor.remaining c) o) :
    Agrees rules e' c v := by
  rcases v with _ | _ | _ | rest
  · exact trivial
  · exact h
  · exact hmono none h
  · obtain ⟨x, hx, hderives⟩ := h
    exact ⟨x, hx, hmono (some x) hderives⟩

variable [LawfulCursor γ]

theorem oneOf (accepts : σ → Bool) (c : γ) :
    Agrees rules (.oneOf accepts) c (.symbol accepts c) := by
  cases hw : Cursor.remaining c with
  | nil =>
    rw [Verdict.symbol_of_nil accepts hw]
    show Derives rules _ (Cursor.remaining c) none
    rw [hw]
    exact .oneOf_end accepts
  | cons s w =>
    rw [Verdict.symbol_of_cons hw]
    cases haccepts : accepts s with
    | true =>
      refine ⟨[s], ?_, ?_⟩
      · rw [LawfulCursor.remaining_advance, hw]
        rfl
      · rw [hw]
        exact .oneOf w haccepts
    | false =>
      show Derives rules _ (Cursor.remaining c) none
      rw [hw]
      exact .oneOf_other w haccepts

theorem any (c : γ) : Agrees rules .any c (.symbol (fun _ => true) c) := by
  cases hw : Cursor.remaining c with
  | nil =>
    rw [Verdict.symbol_of_nil _ hw]
    show Derives rules _ (Cursor.remaining c) none
    rw [hw]
    exact .any_end
  | cons s w =>
    rw [Verdict.symbol_of_cons hw]
    refine ⟨[s], ?_, ?_⟩
    · rw [LawfulCursor.remaining_advance, hw]
      rfl
    · rw [hw]
      exact .any s w

end Agrees

end Peg

namespace Recognizer

open Peg

variable [Cursor γ σ]

/-- Wherever the recognizer finishes, the expression derives the same. -/
def Implements (rules : ν → Option (Expr σ ν)) (e : Expr σ ν) (p : Recognizer γ α) : Prop :=
  ∀ c, Agrees rules e c (p c).verdict

namespace Implements

variable {rules : ν → Option (Expr σ ν)} {e e' : Expr σ ν} {p : Recognizer γ α}

theorem action (h : Implements rules e p) (f : α → β) : Implements rules e (p.action f) := by
  intro c
  rw [verdict_action]
  exact h c

theorem pair {q : Recognizer γ β} (hp : Implements rules e p) (hq : Implements rules e' q) :
    Implements rules (.seq e e') (p.pair q) := by
  intro c
  rw [verdict_pair]
  exact (hp c).andThen hq

theorem sequence {run : ι → Recognizer γ α} {expr : ι → Expr σ ν} {is : List ι}
    (h : ∀ i ∈ is, Implements rules (expr i) (run i)) :
    Implements rules (.seqAll (is.map expr)) (Recognizer.sequence (is.map run)) := by
  induction is with
  | nil => exact fun c => Agrees.accept_self (.empty _)
  | cons i is ih =>
    intro c
    have his := ih fun j hj => h j (List.mem_cons_of_mem i hj)
    rw [List.map_cons, List.map_cons, verdict_sequence_cons]
    exact (h i List.mem_cons_self c).andThen his

theorem select {run : ι → Recognizer γ α} {expr : ι → Expr σ ν} {is : List ι}
    (h : ∀ i ∈ is, Implements rules (expr i) (run i)) {index : Nat} (hindex : index < is.length) :
    Implements rules (.seqAll (is.map expr)) (Recognizer.select (is.map run) index) := by
  intro c
  rw [verdict_select _ (by rwa [List.length_map])]
  exact sequence h c

theorem choice {run : ι → Recognizer γ α} {expr : ι → Expr σ ν} {is : List ι}
    (h : ∀ i ∈ is, Implements rules (expr i) (run i)) :
    Implements rules (.choiceAll (is.map expr)) (Recognizer.choice (is.map run)) := by
  induction is with
  | nil => exact fun c => Derives.not_match (.empty _)
  | cons i is ih =>
    intro c
    have his := ih fun j hj => h j (List.mem_cons_of_mem i hj)
    rw [List.map_cons, List.map_cons, verdict_choice_cons]
    exact (h i List.mem_cons_self c).orElse (his c)

theorem optionalOr (h : Implements rules e p) (absent : α) :
    Implements rules (.choice e .empty) (p.optionalOr absent) := by
  intro c
  rw [verdict_optionalOr]
  exact (h c).orElse (.accept_self (.empty _))

variable [LawfulCursor γ]

/-- A minimum is so many copies of the expression before its free repetition. Since every match
reads something, the repetition of the recognizer ends where that of the expression does. -/
theorem many (h : Implements rules e p) (hreads : ReadsUnless False p) (budget min : Nat) :
    Implements rules (.atLeast min e) (Recognizer.many budget p min) := by
  induction budget generalizing min with
  | zero => exact fun c => trivial
  | succ budget ih =>
    intro c
    cases min with
    | succ min =>
      rw [verdict_many_succ hreads]
      exact (h c).andThen (ih min)
    | zero =>
      rw [verdict_many_zero hreads]
      exact (((h c).andThen (ih 0)).orElse (.accept_self (.empty _))).mono fun _ => .of_unrolled

theorem anySymbol : Implements rules .any (Recognizer.anySymbol (γ := γ)) := by
  intro c
  rw [verdict_anySymbol]
  exact .any c

theorem oneOf [BEq σ] (symbols : List σ) :
    Implements rules (.oneOf (accepts symbols)) (Recognizer.oneOf (γ := γ) symbols) := by
  intro c
  rw [verdict_oneOf]
  exact .oneOf _ c

theorem endOfInput (value : α) :
    Implements rules (.not .any) (Recognizer.endOfInput (γ := γ) value) := by
  intro c
  rw [verdict_endOfInput]
  exact (Agrees.any c).negate

end Implements

end Recognizer

end Descent
