import Descent.Grammar.Parsing
import Descent.Proofs.Lockstep

/-!
# Parsers that are built alike

Two parsers over two registries may differ in the symbols they know and in the values they make. If
they are built alike, with data that correspond at every node, their meanings are in lockstep. The
step from the parts of a parser to the whole is stated for any relation between the parts; a
relation that every such step keeps holds between all that the two runs come to.
-/

namespace Descent

open Recognizer (Refines)

variable {γ γ' σ σ' δ δ' : Type}

/-- A relation between values that every way to build a value from symbols and values keeps. -/
structure Value.Corresponds (R : σ → σ' → Prop) (V : Value σ δ → Value σ' δ' → Prop) : Prop where
  symbol {s : σ} {s' : σ'} : R s s' → V (.symbol s) (.symbol s')
  absent : V .absent .absent
  present {v : Value σ δ} {v' : Value σ' δ'} : V v v' → V (.present v) (.present v')
  pair {v w : Value σ δ} {v' w' : Value σ' δ'} :
    V v v' → V w w' → V (.pair v w) (.pair v' w')
  list {vs : List (Value σ δ)} {vs' : List (Value σ' δ')} :
    List.Forall₂ V vs vs' → V (.list vs) (.list vs')

theorem Value.Corresponds.flip {R : σ → σ' → Prop} {V : Value σ δ → Value σ' δ' → Prop}
    (h : Corresponds R V) : Corresponds (flip R) (flip V) where
  symbol hs := h.symbol hs
  absent := h.absent
  present hv := h.present hv
  pair hv hw := h.pair hv hw
  list hvs := h.list hvs.flip

theorem Value.corresponds_eq : Corresponds Eq (Eq : Value σ δ → Value σ δ → Prop) where
  symbol h := congrArg symbol h
  absent := rfl
  present h := congrArg present h
  pair h h' := congrArg₂ pair h h'
  list h := congrArg list (List.forall₂_eq_eq_eq ▸ h)

namespace Parser

/-- The parser looks at the input itself, and not through other parsers. -/
def Looks : Parser σ δ → Prop
  | oneOf _ | anySymbol | endOfInput _ => True
  | _ => False

/-- Both look-ups find parsers that are related, or end in one error. -/
inductive Finds (T : Parser σ δ → Parser σ' δ' → Prop) :
    Except GrammarError (Parser σ δ) → Except GrammarError (Parser σ' δ') → Prop
  | error (e : GrammarError) : Finds T (.error e) (.error e)
  | body {p : Parser σ δ} {p' : Parser σ' δ'} : T p p' → Finds T (.ok p) (.ok p')

theorem Finds.mono {T T' : Parser σ δ → Parser σ' δ' → Prop}
    {found : Except GrammarError (Parser σ δ)} {found' : Except GrammarError (Parser σ' δ')}
    (h : Finds T found found') (hT : ∀ p p', T p p' → T' p p') : Finds T' found found' := by
  cases h with
  | error e => exact .error e
  | body hp => exact .body (hT _ _ hp)

theorem Finds.symm {T : Parser σ δ → Parser σ' δ' → Prop}
    {found : Except GrammarError (Parser σ δ)} {found' : Except GrammarError (Parser σ' δ')}
    (h : Finds T found found') : Finds (flip T) found' found := by
  cases h with
  | error e => exact .error e
  | body hp => exact .body hp

variable [BEq σ] [BEq σ'] (r : Registry σ δ) (r' : Registry σ' δ')
variable (R : σ → σ' → Prop) (V : Value σ δ → Value σ' δ' → Prop)

/-- Parsers of one kind, with sets that accept alike, values and actions that correspond, and parts
and bodies related by `T`. -/
inductive Congruent (T : Parser σ δ → Parser σ' δ' → Prop) :
    Parser σ δ → Parser σ' δ' → Prop
  | oneOf {symbols : List σ} {symbols' : List σ'} :
      (∀ s s', R s s' → Recognizer.accepts symbols s = Recognizer.accepts symbols' s') →
      Congruent T (.oneOf symbols) (.oneOf symbols')
  | anySymbol : Congruent T .anySymbol .anySymbol
  | endOfInput {v : Value σ δ} {v' : Value σ' δ'} :
      V v v' → Congruent T (.endOfInput v) (.endOfInput v')
  | sequence {ps : List (Parser σ δ)} {ps' : List (Parser σ' δ')} :
      List.Forall₂ T ps ps' → Congruent T (.sequence ps) (.sequence ps')
  | select {ps : List (Parser σ δ)} {ps' : List (Parser σ' δ')} (index : Nat) :
      List.Forall₂ T ps ps' → Congruent T (.select ps index) (.select ps' index)
  | pair {p q : Parser σ δ} {p' q' : Parser σ' δ'} :
      T p p' → T q q' → Congruent T (.pair p q) (.pair p' q')
  | choice {ps : List (Parser σ δ)} {ps' : List (Parser σ' δ')} :
      List.Forall₂ T ps ps' → Congruent T (.choice ps) (.choice ps')
  | optional {p : Parser σ δ} {p' : Parser σ' δ'} :
      T p p' → Congruent T (.optional p) (.optional p')
  | optionalOr {p : Parser σ δ} {p' : Parser σ' δ'} {v : Value σ δ} {v' : Value σ' δ'} :
      T p p' → V v v' → Congruent T (.optionalOr p v) (.optionalOr p' v')
  | many {p : Parser σ δ} {p' : Parser σ' δ'} (min : Nat) :
      T p p' → Congruent T (.many p min) (.many p' min)
  | action {p : Parser σ δ} {p' : Parser σ' δ'} {f : Value σ δ → Value σ δ}
      {f' : Value σ' δ' → Value σ' δ'} :
      T p p' → (∀ v v', V v v' → V (f v) (f' v')) → Congruent T (.action p f) (.action p' f')
  | reference {g g' : GrammarId} {name : String} :
      Finds T (r.resolve g name) (r'.resolve g' name) →
      Congruent T (.reference g name) (.reference g' name)

variable {r r' R V} {T T' : Parser σ δ → Parser σ' δ' → Prop}
variable {p : Parser σ δ} {p' : Parser σ' δ'}

theorem Congruent.mono (h : Congruent r r' R V T p p') (hT : ∀ p p', T p p' → T' p p') :
    Congruent r r' R V T' p p' := by
  cases h with
  | oneOf haccepts => exact .oneOf haccepts
  | anySymbol => exact .anySymbol
  | endOfInput hv => exact .endOfInput hv
  | sequence hps => exact .sequence (hps.imp hT)
  | select index hps => exact .select index (hps.imp hT)
  | pair hp hq => exact .pair (hT _ _ hp) (hT _ _ hq)
  | choice hps => exact .choice (hps.imp hT)
  | optional hp => exact .optional (hT _ _ hp)
  | optionalOr hp hv => exact .optionalOr (hT _ _ hp) hv
  | many min hp => exact .many min (hT _ _ hp)
  | action hp hf => exact .action (hT _ _ hp) hf
  | reference hfinds => exact .reference (hfinds.mono hT)

theorem Congruent.symm {R' : σ' → σ → Prop} (h : Congruent r r' R V T p p')
    (hR : ∀ s' s, R' s' s → R s s') : Congruent r' r R' (flip V) (flip T) p' p := by
  cases h with
  | oneOf haccepts => exact .oneOf fun s' s hs => (haccepts s s' (hR s' s hs)).symm
  | anySymbol => exact .anySymbol
  | endOfInput hv => exact .endOfInput hv
  | sequence hps => exact .sequence hps.flip
  | select index hps => exact .select index hps.flip
  | pair hp hq => exact .pair hp hq
  | choice hps => exact .choice hps.flip
  | optional hp => exact .optional hp
  | optionalOr hp hv => exact .optionalOr hp hv
  | many min hp => exact .many min hp
  | action hp hf => exact .action hp fun v' v hv => hf v v' hv
  | reference hfinds => exact .reference hfinds.symm

/-- A parser over two registries, where what its reference finds is related. -/
theorem Congruent.self {r r' : Registry σ δ} {T : Parser σ δ → Parser σ δ → Prop} {p : Parser σ δ}
    (hparts : ∀ q ∈ p.parts, T q q)
    (hfinds : ∀ g name, p = .reference g name →
      Finds T (r.resolve g name) (r'.resolve g name)) :
    Congruent r r' Eq Eq T p p := by
  cases p with
  | oneOf symbols => exact .oneOf fun s s' hs => by rw [hs]
  | anySymbol => exact .anySymbol
  | endOfInput v => exact .endOfInput rfl
  | sequence ps => exact .sequence (List.forall₂_same.mpr hparts)
  | select ps index => exact .select index (List.forall₂_same.mpr hparts)
  | pair p q => exact .pair (hparts p (by simp [parts])) (hparts q (by simp [parts]))
  | choice ps => exact .choice (List.forall₂_same.mpr hparts)
  | optional p => exact .optional (hparts p (by simp [parts]))
  | optionalOr p v => exact .optionalOr (hparts p (by simp [parts])) rfl
  | many p min => exact .many min (hparts p (by simp [parts]))
  | action p f => exact .action (hparts p (by simp [parts])) fun v v' hv => congrArg f hv
  | reference g name => exact .reference (hfinds g name rfl)
  | leaf x => exact x.elim

theorem Congruent.refl {T : Parser σ δ → Parser σ δ → Prop} {p : Parser σ δ}
    (hparts : ∀ q ∈ p.parts, T q q)
    (hbody : ∀ g name body, p = .reference g name → r.resolve g name = .ok body → T body body) :
    Congruent r r Eq Eq T p p := by
  apply Congruent.self hparts
  intro g name hp
  cases hresolve : r.resolve g name with
  | error e => exact .error e
  | ok body => exact .body (hbody g name body hp hresolve)

variable [Cursor γ σ] [Cursor γ' σ'] {L : Lockstep γ γ'}

/-- When parsers are built alike and the meanings of what they run next are refined, so are their
own meanings. Only for parsers that look at the input themselves must the cursors show matching
symbols. -/
theorem Congruent.step_refines (hL : p.Looks → L.Reads R) (hV : Value.Corresponds R V)
    {rounds rounds' : Nat}
    (hrounds : rounds ≤ rounds' ∨
      ∀ c c', L.Moves c c' c c' → (Cursor.remaining c').length < rounds')
    {run : Parser σ δ → Recognizer γ (Value σ δ)}
    {run' : Parser σ' δ' → Recognizer γ' (Value σ' δ')}
    (h : Congruent r r' R V (fun q q' => Refines L V (run q) (run' q')) p p') :
    Refines L V (step r rounds run p) (step r' rounds' run' p') := by
  have hmap {ps : List (Parser σ δ)} {ps' : List (Parser σ' δ')}
      (h : List.Forall₂ (fun q q' => Refines L V (run q) (run' q')) ps ps') :
      List.Forall₂ (Refines L V) (ps.map run) (ps'.map run') := by
    rwa [List.forall₂_map_left_iff, List.forall₂_map_right_iff]
  intro c c' hc
  cases h with
  | oneOf haccepts =>
    exact (Refines.oneOf (hL trivial) haccepts).action (fun s s' hs => hV.symbol hs) c c' hc
  | anySymbol => exact (Refines.anySymbol (hL trivial)).action (fun s s' hs => hV.symbol hs) c c' hc
  | endOfInput hv => exact Refines.endOfInput (hL trivial) hv c c' hc
  | sequence hps => exact (Refines.sequence (hmap hps)).action (fun vs vs' => hV.list) c c' hc
  | select index hps => exact Refines.select (hmap hps) index c c' hc
  | pair hp hq => exact (hp.pair hq).action (fun v v' hv => hV.pair hv.1 hv.2) c c' hc
  | choice hps => exact Refines.choice (hmap hps) c c' hc
  | optional hp =>
    refine hp.optional.action (fun v v' hv => ?_) c c' hc
    cases hv with
    | none => exact hV.absent
    | some hv => exact hV.present hv
  | optionalOr hp hv => exact hp.optionalOr hv c c' hc
  | many min hp => exact (hp.many min hrounds).action (fun vs vs' => hV.list) c c' hc
  | action hp hf => exact hp.action hf c c' hc
  | @reference g g' name hfinds =>
    simp only [step]
    generalize r.resolve g name = found at hfinds ⊢
    generalize r'.resolve g' name = found' at hfinds ⊢
    cases hfinds with
    | error e => exact .error e .nil
    | @body body body' hbody =>
      refine Run.Refines.bind (V := fun b b' => b = body ∧ b' = body') (.value .nil ⟨rfl, rfl⟩) ?_
      intro _ _ hbodies
      obtain ⟨rfl, rfl⟩ := hbodies
      apply Run.Refines.bind (Run.Refines.note (L.resolved name hc))
      intro _ _ _
      exact hbody c c' hc

/-- Under a relation that holds of parsers only when they are built alike with parts and bodies in
that relation, what one run answers the other one answers with no smaller budget. -/
theorem recognizer_refines_of_congruent (hL : L.Reads R) (hV : Value.Corresponds R V)
    (hT : ∀ p p', T p p' → Congruent r r' R V T p p') {budget budget' : Nat}
    (hb : budget ≤ budget') (h : T p p') :
    Refines L V (recognizer r budget p) (recognizer r' budget' p') := by
  induction budget generalizing budget' p p' with
  | zero => exact .unfinished _
  | succ budget ih =>
    obtain ⟨budget', rfl⟩ := Nat.exists_eq_add_one.mpr (Nat.zero_lt_of_lt hb)
    have hle := Nat.le_of_succ_le_succ hb
    exact ((hT p p' h).mono fun q q' hq => ih hle hq).step_refines (fun _ => hL) hV (.inl hle)

end Parser

end Descent
