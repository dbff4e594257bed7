import Descent.Proofs.Shape
import Descent.Proofs.Strategy

/-!
# Rules in place of references

To write the body of a rule where there was a reference to it changes no result, wherever this is
done and however often: in the parser that is run, in the bodies of any rules, and in the body of
the rule itself. Strategies that call related parsers in the same places come to the same answers,
so what one run answers the other one answers, by induction on the budget in both directions.
-/

namespace Descent

variable {γ σ δ : Type}

/-- Both stop with one answer, or both call related parsers on one cursor. -/
inductive Move.Alike (T : Parser σ δ → Parser σ δ → Prop) : Move γ σ δ → Move γ σ δ → Prop
  | call {p p' : Parser σ δ} (c : γ) : T p p' → Alike T (.call p c) (.call p' c)
  | stop (a : Answer γ σ δ) : Alike T (.stop a) (.stop a)

namespace Move.Alike

variable {T : Parser σ δ → Parser σ δ → Prop} {m m' : Move γ σ δ}

theorem symm (h : Alike T m m') : Alike (flip T) m' m := by
  cases h with
  | call c hp => exact .call c hp
  | stop a => exact .stop a

theorem eq_stop {a : Answer γ σ δ} (h : Alike T m m') (hm : m = .stop a) : m' = .stop a := by
  cases h with
  | call c hp => cases hm
  | stop a => exact hm

theorem exists_call {p : Parser σ δ} {c : γ} (h : Alike T m m') (hm : m = .call p c) :
    ∃ p', m' = .call p' c ∧ T p p' := by
  cases h with
  | call c hp =>
    cases hm
    exact ⟨_, rfl, hp⟩
  | stop a => cases hm

end Move.Alike

namespace Strategy

/-- After any answers the strategies make moves that are alike. -/
def Alike (T : Parser σ δ → Parser σ δ → Prop) (S S' : Strategy γ σ δ) : Prop :=
  ∀ answers, Move.Alike T (S answers) (S' answers)

namespace Alike

variable {T : Parser σ δ → Parser σ δ → Prop} {S S' : Strategy γ σ δ}

theorem symm (h : Alike T S S') : Alike (flip T) S' S := fun answers => (h answers).symm

theorem stop (a : Answer γ σ δ) : Alike T (.stop a) (.stop a) := fun _ => .stop a

theorem call {p p' : Parser σ δ} (hp : T p p') (c : γ)
    {next next' : Outcome γ (Value σ δ) → Strategy γ σ δ} (h : ∀ o, Alike T (next o) (next' o)) :
    Alike T (.call p c next) (.call p' c next') := by
  rintro (_ | ⟨e | o, answers⟩)
  · exact .call c hp
  · exact .stop (.error e)
  · exact h o answers

theorem inTurn (finish : List (Value σ δ) → γ → Answer γ σ δ) {ps ps' : List (Parser σ δ)}
    (hps : List.Forall₂ T ps ps') (values : List (Value σ δ)) (c : γ) :
    Alike T (.inTurn finish ps values c) (.inTurn finish ps' values c) := by
  induction hps generalizing values c with
  | nil => exact stop (finish values c)
  | cons hp _ ih =>
    apply call hp
    intro o
    cases o with
    | success value rest => exact ih (values ++ [value]) rest
    | failure => exact stop (.ok .failure)

theorem firstOf {ps ps' : List (Parser σ δ)} (hps : List.Forall₂ T ps ps') (c : γ) :
    Alike T (.firstOf ps c) (.firstOf ps' c) := by
  induction hps with
  | nil => exact stop (.ok .failure)
  | cons hp _ ih =>
    apply call hp
    intro o
    cases o with
    | success value rest => exact stop (.ok (.success value rest))
    | failure => exact ih

theorem repeatedly [Cursor γ σ] (finish : List (Value σ δ) → γ → Answer γ σ δ) {p p' : Parser σ δ}
    (hp : T p p') (values : List (Value σ δ)) (c : γ) :
    Alike T (.repeatedly finish p values c) (.repeatedly finish p' values c) := by
  intro answers
  induction answers generalizing values c with
  | nil => exact .call c hp
  | cons a answers ih =>
    rcases a with e | ⟨value, rest⟩ | _
    · exact .stop (.error e)
    · simp only [Strategy.repeatedly]
      split
      · exact .stop (finish values c)
      · exact ih (values ++ [value]) rest
    · exact .stop (finish values c)

end Alike

end Strategy

namespace Parser

variable [Cursor γ σ] [BEq σ] {r r' : Registry σ δ} {T : Parser σ δ → Parser σ δ → Prop}
variable {p p' : Parser σ δ}

/-- Parsers that are built alike have strategies that are alike. -/
theorem Congruent.strategy_alike (h : Congruent r r' Eq Eq T p p') (c : γ) :
    Strategy.Alike T (p.strategy r c) (p'.strategy r' c) := by
  cases h with
  | @oneOf symbols symbols' haccepts =>
    have heq : Recognizer.accepts symbols = Recognizer.accepts symbols' :=
      funext fun s => haccepts s s rfl
    simp only [strategy, heq]
    exact .stop _
  | anySymbol => exact .stop _
  | endOfInput hv => exact hv ▸ .stop _
  | sequence hps => exact .inTurn _ hps [] c
  | select index hps =>
    simp only [strategy, hps.length_eq]
    exact .inTurn _ hps [] c
  | pair hp hq =>
    apply Strategy.Alike.call hp
    intro o
    cases o with
    | success first rest => exact .call hq rest fun o => .stop _
    | failure => exact .stop _
  | choice hps => exact .firstOf hps c
  | optional hp =>
    apply Strategy.Alike.call hp
    intro o
    cases o <;> exact .stop _
  | optionalOr hp hv =>
    obtain rfl := hv
    apply Strategy.Alike.call hp
    intro o
    cases o <;> exact .stop _
  | many min hp => exact .repeatedly _ hp [] c
  | @action _ _ f f' hp hf =>
    obtain rfl : f = f' := funext fun v => hf v v rfl
    exact .call hp c fun o => .stop _
  | @reference g g' name hfinds =>
    simp only [strategy]
    generalize r.resolve g name = found at hfinds ⊢
    generalize r'.resolve g' name = found' at hfinds ⊢
    cases hfinds with
    | error e => exact .stop _
    | body hbody => exact .call hbody c fun o => .stop _

variable [LawfulCursor γ]

/-- Where strategies are alike, and the calls of the second one come to the answers that those of the
first one come to, the parsers come to one answer. -/
theorem result?_of_alike {budget : Nat} {c : γ} {a : Answer γ σ δ}
    (halike : Strategy.Alike T (p.strategy r c) (p'.strategy r' c))
    (hcalls : ∀ q q' (d : γ) b, T q q' → (recognizer r budget q d).result? = some b →
      (q'.parse r' d).result? = some b)
    (h : (recognizer r (budget + 1) p c).result? = some a) : (p'.parse r' c).result? = some a := by
  obtain ⟨answers, hfollows, hstop⟩ := exists_answers_of_recognizer r h
  refine (parse_result?_iff_exists_answers r').mpr
    ⟨answers, hfollows.transfer ?_, (halike answers).eq_stop hstop⟩
  intro before q d b _ hcall hb
  obtain ⟨q', hcall', hq⟩ := (halike before).exists_call hcall
  exact ⟨q', hcall', hcalls q q' d b hq hb⟩

/-- The second parser is the first one with the body `b` in place of some of the references to the
rule `name`. -/
inductive Inlined (g : GrammarId) (name : String) (b : Parser σ δ) :
    Parser σ δ → Parser σ δ → Prop
  | inline : Inlined g name b (.reference g name) b
  | same (p : Parser σ δ) : Inlined g name b p p
  | sequence {ps ps' : List (Parser σ δ)} : List.Forall₂ (Inlined g name b) ps ps' →
      Inlined g name b (.sequence ps) (.sequence ps')
  | select {ps ps' : List (Parser σ δ)} (index : Nat) : List.Forall₂ (Inlined g name b) ps ps' →
      Inlined g name b (.select ps index) (.select ps' index)
  | pair {p q p' q' : Parser σ δ} : Inlined g name b p p' → Inlined g name b q q' →
      Inlined g name b (.pair p q) (.pair p' q')
  | choice {ps ps' : List (Parser σ δ)} : List.Forall₂ (Inlined g name b) ps ps' →
      Inlined g name b (.choice ps) (.choice ps')
  | optional {p p' : Parser σ δ} : Inlined g name b p p' →
      Inlined g name b (.optional p) (.optional p')
  | optionalOr {p p' : Parser σ δ} (v : Value σ δ) : Inlined g name b p p' →
      Inlined g name b (.optionalOr p v) (.optionalOr p' v)
  | many {p p' : Parser σ δ} (min : Nat) : Inlined g name b p p' →
      Inlined g name b (.many p min) (.many p' min)
  | action {p p' : Parser σ δ} (f : Value σ δ → Value σ δ) : Inlined g name b p p' →
      Inlined g name b (.action p f) (.action p' f)

end Parser

/-- In the second registry the bodies of some rules have been inlined likewise. -/
def Registry.Inlined (g : GrammarId) (name : String) (b : Parser σ δ) (r r' : Registry σ δ) :
    Prop :=
  ∀ g' name', Parser.Finds (Parser.Inlined g name b) (r.resolve g' name') (r'.resolve g' name')

namespace Registry.Inlined

variable {g : GrammarId} {name : String} {b : Parser σ δ} {r r' : Registry σ δ}

theorem refl (r : Registry σ δ) : r.Inlined g name b r := by
  intro g' name'
  cases r.resolve g' name' with
  | error e => exact .error e
  | ok body => exact .body (.same body)

/-- A rule after the other can be registered anew with references inlined in its body. -/
theorem bind (h : r.Inlined g name b r') {g' : GrammarId} {name' : String} {body body' : Parser σ δ}
    (hresolve : r.resolve g' name' = .ok body) (hbody : Parser.Inlined g name b body body') :
    r.Inlined g name b (r'.bind g' name' body') := by
  have hlive : r'.isLive g' = true := by
    have hfinds := h g' name'
    rw [hresolve] at hfinds
    generalize hfound : r'.resolve g' name' = found at hfinds
    cases hfinds with
    | body _ => exact r'.isLive_of_resolve hfound
  intro g'' name''
  by_cases hg : g'' = g'
  · obtain rfl := hg
    rw [resolve_bind_self r' hlive]
    split
    next hname =>
      rw [hname, hresolve]
      exact .body hbody
    · exact h g'' name''
  · rw [resolve_bind_of_ne r' hg]
    exact h g'' name''

end Registry.Inlined

namespace Parser

variable [Cursor γ σ] [BEq σ] {r r' : Registry σ δ} {g : GrammarId} {name : String}
variable {b p p' : Parser σ δ}

theorem Inlined.congruent_self (hr : r.Inlined g name b r') (p : Parser σ δ) :
    Congruent r r' Eq Eq (Inlined g name b) p p :=
  .self (fun q _ => .same q) fun g' name' _ => hr g' name'

/-- Where no reference is replaced at the top, the parsers are built alike. -/
theorem Inlined.eq_or_congruent (hr : r.Inlined g name b r') (h : Inlined g name b p p') :
    (p = .reference g name ∧ p' = b) ∨ Congruent r r' Eq Eq (Inlined g name b) p p' := by
  cases h with
  | inline => exact .inl ⟨rfl, rfl⟩
  | same p => exact .inr (congruent_self hr p)
  | sequence hps => exact .inr (.sequence hps)
  | select index hps => exact .inr (.select index hps)
  | pair hp hq => exact .inr (.pair hp hq)
  | choice hps => exact .inr (.choice hps)
  | optional hp => exact .inr (.optional hp)
  | optionalOr v hp => exact .inr (.optionalOr hp rfl)
  | many min hp => exact .inr (.many min hp)
  | action f hp => exact .inr (.action hp fun v v' hv => congrArg f hv)

variable [LawfulCursor γ] {c : γ} {a : Answer γ σ δ}

/-- By induction on the budget before the replacement: the body of the rule needs less of it than
the reference in its place did. -/
theorem Inlined.parse_of_recognizer (hb : r.resolve g name = .ok b) (hr : r.Inlined g name b r')
    {budget : Nat} (hp : Inlined g name b p p')
    (h : (recognizer r budget p c).result? = some a) : (p'.parse r' c).result? = some a := by
  induction budget generalizing p p' c a with
  | zero => cases h
  | succ budget ih =>
    obtain ⟨rfl, rfl⟩ | hcongruent := hp.eq_or_congruent hr
    · rw [recognizer, result?_step_reference, hb] at h
      exact ih (.same p') h
    · exact result?_of_alike (hcongruent.strategy_alike c) (fun q q' d b' hq hb' => ih hq hb') h

/-- By induction on the budget after the replacement. The body in place of the reference has no less
budget than the reference had, but its own parts have. -/
theorem Inlined.parse_of_recognizer_inlined (hb : r.resolve g name = .ok b)
    (hr : r.Inlined g name b r') {budget : Nat} (hp : Inlined g name b p p')
    (h : (recognizer r' budget p' c).result? = some a) : (p.parse r c).result? = some a := by
  induction budget generalizing p p' c a with
  | zero => cases h
  | succ budget ih =>
    have hcongruent {q q' : Parser σ δ} (hq : Congruent r r' Eq Eq (Inlined g name b) q q')
        (h : (recognizer r' (budget + 1) q' c).result? = some a) :
        (q.parse r c).result? = some a :=
      result?_of_alike (hq.strategy_alike c).symm (fun q' q d b' hq hb' => ih hq hb') h
    obtain ⟨rfl, rfl⟩ | hp := hp.eq_or_congruent hr
    · rw [result?_parse_reference, hb]
      exact hcongruent (congruent_self hr p') h
    · exact hcongruent hp h

/-- Rules can be inlined anywhere, and nothing that a run comes to is gained or lost by it. -/
theorem parse_result?_eq_of_inlined (hb : r.resolve g name = .ok b) (hr : r.Inlined g name b r')
    (hp : Inlined g name b p p') (c : γ) : (p'.parse r' c).result? = (p.parse r c).result? := by
  apply Option.ext
  intro a
  constructor
  · exact Inlined.parse_of_recognizer_inlined hb hr hp
  · exact Inlined.parse_of_recognizer hb hr hp

end Parser

namespace Layers

variable (f : Value Char δ → Value Char δ) (bare : Value Char δ)

/-- A layer, with a layer written out in it. -/
def unrolled : Parser Char δ :=
  .choice
    [.action (.sequence [.symbol '(', layer f bare, .symbol ')']) f,
      .optionalOr (.symbol 'x') bare]

theorem unrolled_inlined :
    Parser.Inlined grammar "layer" (layer f bare) (layer f bare) (unrolled f bare) :=
  .choice (.cons (.action f (.sequence (.cons (.same _) (.cons .inline (.cons (.same _) .nil)))))
    (.cons (.same _) .nil))

/-- Written out in its own body and in the parser that is run, a layer still counts for one. -/
theorem whole_result?_eq_of_inlined :
    (rules deeper (.datum 0)).resolve grammar "layer" = .ok (layer deeper (.datum 0)) ∧
    (rules deeper (.datum 0)).Inlined grammar "layer" (layer deeper (.datum 0))
      ((rules deeper (.datum 0)).bind grammar "layer" (unrolled deeper (.datum 0))) ∧
    Parser.Inlined grammar "layer" (layer deeper (.datum 0)) (whole (.datum 0))
      (.sequence [layer deeper (.datum 0), .endOfInput (.datum 0)]) ∧
    ((Parser.sequence [layer deeper (.datum 0), .endOfInput (.datum 0)]).parse
      ((rules deeper (.datum 0)).bind grammar "layer" (unrolled deeper (.datum 0)))
      (SliceCursor.ofArray input)).result? =
        some (.ok (.success (.list [.datum 2, .datum 0]) (.ended input))) := by
  have hresolve : (rules deeper (.datum 0)).resolve grammar "layer" =
      .ok (layer deeper (.datum 0)) := rfl
  have hrules := (Registry.Inlined.refl (rules deeper (.datum 0))).bind hresolve
    (unrolled_inlined deeper (.datum 0))
  have hwhole : Parser.Inlined grammar "layer" (layer deeper (.datum 0)) (whole (.datum 0))
      (.sequence [layer deeper (.datum 0), .endOfInput (.datum 0)]) :=
    .sequence (.cons .inline (.cons (.same _) .nil))
  refine ⟨hresolve, hrules, hwhole, ?_⟩
  rw [Parser.parse_result?_eq_of_inlined hresolve hrules hwhole]
  rfl

end Layers

end Descent
