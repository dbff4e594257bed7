import Descent.Proofs.Refinement
import Descent.Recognizer

/-!
# Recognizers in lockstep

Two recognizers run side by side on two cursors. A lockstep says which pairs of places belong
together and which pairs of moves keep them together. Every way to combine recognizers keeps
lockstep: if the parts of one refine the parts of the other, so does the whole.
-/

namespace Descent

/-- How two cursors move together. -/
structure Lockstep (γ γ' : Type) {σ σ' : Type} [Cursor γ σ] [Cursor γ' σ'] where
  /-- From the matching places `c` and `c'` the cursors move to the matching places `d` and `d'`. -/
  Moves : γ → γ' → γ → γ' → Prop
  stay {c d : γ} {c' d' : γ'} : Moves c c' d d' → Moves d d' d d'
  trans {c d e : γ} {c' d' e' : γ'} :
    Moves c c' d d' → Moves d d' e e' → Moves c c' e e'
  /-- A repetition makes progress on one side exactly when it does on the other. -/
  position_eq_iff {c d : γ} {c' d' : γ'} : Moves c c' d d' →
    (Cursor.position d = Cursor.position c ↔ Cursor.position d' = Cursor.position c')
  /-- Progress uses up symbols. -/
  remaining_lt {c d : γ} {c' d' : γ'} :
    Moves c c' d d' → Cursor.position d' ≠ Cursor.position c' →
    (Cursor.remaining d').length < (Cursor.remaining c').length
  /-- The events that count as the same. -/
  Notes : Event → Event → Prop
  stalled {c : γ} {c' : γ'} (found : Nat) : Moves c c' c c' →
    Notes (.stalled (Cursor.position c) found) (.stalled (Cursor.position c') found)
  resolved {c : γ} {c' : γ'} (name : String) : Moves c c' c c' →
    Notes (.resolved name (Cursor.position c)) (.resolved name (Cursor.position c'))

namespace Lockstep

variable {γ γ' σ σ' : Type} [Cursor γ σ] [Cursor γ' σ']

/-- At matching places the cursors show matching symbols, and they step past them together. -/
structure Reads (L : Lockstep γ γ') (R : σ → σ' → Prop) : Prop where
  current {c : γ} {c' : γ'} : L.Moves c c' c c' →
    Option.Rel R (Cursor.current c) (Cursor.current c')
  advance {c : γ} {c' : γ'} : L.Moves c c' c c' → Cursor.current c ≠ none →
    L.Moves c c' (Cursor.advance c) (Cursor.advance c')

theorem Reads.current_cases {L : Lockstep γ γ'} {R : σ → σ' → Prop} (hL : L.Reads R) {c : γ}
    {c' : γ'} (hc : L.Moves c c' c c') :
    (Cursor.current c = none ∧ Cursor.current c' = none) ∨
      ∃ s s', Cursor.current c = some s ∧ Cursor.current c' = some s' ∧ R s s' := by
  have hrel := hL.current hc
  generalize Cursor.current c = o at hrel ⊢
  generalize Cursor.current c' = o' at hrel ⊢
  cases hrel with
  | none => exact .inl ⟨rfl, rfl⟩
  | some hss => exact .inr ⟨_, _, rfl, rfl, hss⟩

section Steps

variable [LawfulCursor γ] (At : γ → γ' → Prop)

/-- Matching places have as many symbols left as each other, and a step from a symbol leads to
matching places. -/
structure StepsKeep : Prop where
  length_eq {c : γ} {c' : γ'} : At c c' →
    (Cursor.remaining c).length = (Cursor.remaining c').length
  advance {c : γ} {c' : γ'} : At c c' → Cursor.current c ≠ none →
    At (Cursor.advance c) (Cursor.advance c')

variable {At}

theorem StepsKeep.reaches (h : StepsKeep At) {k : Nat} {c d : γ} {c' d' : γ'} (hc : At c c')
    (hd : Cursor.Reaches k c d) (hd' : Cursor.Reaches k c' d') : At d d' := by
  rw [hd.2, hd'.2]
  have hle := hd.1
  clear hd hd'
  induction k generalizing c c' with
  | zero => exact hc
  | succ k ih =>
    have hcur : Cursor.current c ≠ none := by
      intro hnone
      rw [(Cursor.current_eq_none_iff c).mp hnone] at hle
      exact Nat.not_succ_le_zero k hle
    refine ih (h.advance hc hcur) ?_
    rw [LawfulCursor.remaining_advance, List.length_tail]
    omega

variable [LawfulCursor γ']

/-- The lockstep in which the cursors take the same number of steps from matching places. -/
def ofSteps (h : StepsKeep At) (Notes : Event → Event → Prop)
    (hstalled : ∀ c c' n, At c c' →
      Notes (.stalled (Cursor.position c) n) (.stalled (Cursor.position c') n))
    (hresolved : ∀ c c' name, At c c' →
      Notes (.resolved name (Cursor.position c)) (.resolved name (Cursor.position c'))) :
    Lockstep γ γ' where
  Moves c c' d d' := At c c' ∧ ∃ k, Cursor.Reaches k c d ∧ Cursor.Reaches k c' d'
  stay := by
    intro c d c' d' hmove
    obtain ⟨hc, k, hd, hd'⟩ := hmove
    exact ⟨h.reaches hc hd hd', 0, .zero d, .zero d'⟩
  trans := by
    intro c d e c' d' e' hmove hmove'
    obtain ⟨hc, j, hd, hd'⟩ := hmove
    obtain ⟨-, k, he, he'⟩ := hmove'
    exact ⟨hc, j + k, hd.trans he, hd'.trans he'⟩
  position_eq_iff := by
    intro c d c' d' hmove
    obtain ⟨-, k, hd, hd'⟩ := hmove
    rw [hd.position_eq_iff, hd'.position_eq_iff]
  remaining_lt := by
    intro c d c' d' hmove hne
    obtain ⟨-, k, -, hd'⟩ := hmove
    have hlen := hd'.length_remaining
    have hk := mt hd'.position_eq_iff.mpr hne
    omega
  Notes := Notes
  stalled n := fun hc => hstalled _ _ n hc.1
  resolved name := fun hc => hresolved _ _ name hc.1

/-- Where matching places show matching symbols, the cursors read in step. -/
theorem ofSteps_reads {h : StepsKeep At} {Notes : Event → Event → Prop}
    {hstalled : ∀ c c' n, At c c' →
      Notes (.stalled (Cursor.position c) n) (.stalled (Cursor.position c') n)}
    {hresolved : ∀ c c' name, At c c' →
      Notes (.resolved name (Cursor.position c)) (.resolved name (Cursor.position c'))}
    {R : σ → σ' → Prop}
    (hcurrent : ∀ c c', At c c' → Option.Rel R (Cursor.current c) (Cursor.current c')) :
    (ofSteps h Notes hstalled hresolved).Reads R where
  current hc := hcurrent _ _ hc.1
  advance := by
    intro c c' hmove hcur
    obtain ⟨hc, -⟩ := hmove
    have hcur' : Cursor.current c' ≠ none := by
      intro hnone
      have hrel := hcurrent c c' hc
      rw [hnone] at hrel
      cases hs : Cursor.current c with
      | none => exact hcur hs
      | some s =>
        rw [hs] at hrel
        cases hrel
    exact ⟨hc, 1, .one hcur, .one hcur'⟩

theorem ofSteps_moves_self {h : StepsKeep At} {Notes : Event → Event → Prop}
    {hstalled : ∀ c c' n, At c c' →
      Notes (.stalled (Cursor.position c) n) (.stalled (Cursor.position c') n)}
    {hresolved : ∀ c c' name, At c c' →
      Notes (.resolved name (Cursor.position c)) (.resolved name (Cursor.position c'))}
    {c : γ} {c' : γ'} (hc : At c c') :
    (ofSteps h Notes hstalled hresolved).Moves c c' c c' :=
  ⟨hc, 0, .zero c, .zero c'⟩

theorem StepsKeep.flip (h : StepsKeep At) : StepsKeep (flip At) where
  length_eq hc := (h.length_eq hc).symm
  advance := by
    intro c' c hc hcur'
    have hlen := h.length_eq hc
    have hcur : Cursor.current c ≠ none := by
      rw [ne_eq, Cursor.current_eq_none_iff, ← List.length_eq_zero_iff] at hcur' ⊢
      rwa [hlen]
    exact h.advance hc hcur

end Steps

end Lockstep

namespace Recognizer

variable {γ γ' σ σ' α α' β β' : Type} [Cursor γ σ] [Cursor γ' σ']

/-- Started at matching places, runs of the first recognizer refine those of the second, and they
leave matching places. -/
def Refines (L : Lockstep γ γ') (V : α → β → Prop) (p : Recognizer γ α)
    (q : Recognizer γ' β) : Prop :=
  ∀ c c', L.Moves c c' c c' →
    Run.Refines L.Notes (Outcome.Matches V (L.Moves c c')) (p c) (q c')

namespace Refines

variable {L : Lockstep γ γ'} {V : α → β → Prop} {W : α' → β' → Prop}

theorem unfinished (q : Recognizer γ' β) : Refines L V (fun _ => .unfinished) q :=
  fun _ c' _ => .unfinished (q c')

theorem succeed {a : α} {b : β} (h : V a b) : Refines L V (.succeed a) (.succeed b) :=
  fun _ _ hc => .pure (.success h hc)

theorem reject : Refines L V .reject .reject := fun _ _ _ => .pure .failure

theorem action {p : Recognizer γ α} {q : Recognizer γ' β} {f : α → α'} {g : β → β'}
    (h : Refines L V p q) (hfg : ∀ a b, V a b → W (f a) (g b)) :
    Refines L W (p.action f) (q.action g) := by
  intro c c' hc
  apply (h c c' hc).bind
  intro o o' ho
  exact .pure (ho.map hfg)

theorem andThen {p : Recognizer γ α} {q : Recognizer γ' β} {f : α → Recognizer γ α'}
    {g : β → Recognizer γ' β'} (h : Refines L V p q)
    (hfg : ∀ a b, V a b → Refines L W (f a) (g b)) :
    Refines L W (p.andThen f) (q.andThen g) := by
  intro c c' hc
  apply (h c c' hc).bind
  intro o o' ho
  cases ho with
  | failure => exact .pure .failure
  | @success a b d d' hab hd =>
    apply (hfg a b hab d d' (L.stay hd)).mono
    intro o o' ho
    exact ho.mono fun e e' he => L.trans hd he

theorem sequence {ps : List (Recognizer γ α)} {qs : List (Recognizer γ' β)}
    (h : List.Forall₂ (Refines L V) ps qs) :
    Refines L (List.Forall₂ V) (.sequence ps) (.sequence qs) := by
  induction h with
  | nil => exact succeed .nil
  | cons hp _ ih =>
    exact hp.andThen fun a b hab => ih.action fun _ _ hvs => .cons hab hvs

theorem select {ps : List (Recognizer γ α)} {qs : List (Recognizer γ' β)}
    (h : List.Forall₂ (Refines L V) ps qs) (index : Nat) :
    Refines L V (.select ps index) (.select qs index) := by
  apply (sequence h).andThen
  intro vs ws hvs
  have hlen : ps.length = qs.length := h.length_eq
  by_cases hi : index < vs.length
  · have hi' : index < ws.length := hvs.length_eq ▸ hi
    rw [List.getElem?_eq_getElem hi, List.getElem?_eq_getElem hi']
    exact succeed (hvs.get hi hi')
  · have hi' : ¬ index < ws.length := hvs.length_eq ▸ hi
    rw [List.getElem?_eq_none (Nat.not_lt.mp hi), List.getElem?_eq_none (Nat.not_lt.mp hi'), hlen]
    exact fun _ _ _ => .error _ .nil

theorem pair {p : Recognizer γ α} {q : Recognizer γ' β} {p' : Recognizer γ α'}
    {q' : Recognizer γ' β'} (h : Refines L V p q) (h' : Refines L W p' q') :
    Refines L (fun v w => V v.1 w.1 ∧ W v.2 w.2) (p.pair p') (q.pair q') :=
  h.andThen fun _ _ hab => h'.action fun _ _ hab' => ⟨hab, hab'⟩

theorem choice {ps : List (Recognizer γ α)} {qs : List (Recognizer γ' β)}
    (h : List.Forall₂ (Refines L V) ps qs) : Refines L V (.choice ps) (.choice qs) := by
  induction h with
  | nil => exact reject
  | cons hp _ ih =>
    intro c c' hc
    apply (hp c c' hc).bind
    intro o o' ho
    cases ho with
    | success hab hd => exact .pure (.success hab hd)
    | failure => exact ih c c' hc

theorem optionalOr {p : Recognizer γ α} {q : Recognizer γ' β} {a : α} {b : β}
    (h : Refines L V p q) (hab : V a b) : Refines L V (p.optionalOr a) (q.optionalOr b) := by
  intro c c' hc
  apply (h c c' hc).bind
  intro o o' ho
  cases ho with
  | success hvw hd => exact .pure (.success hvw hd)
  | failure => exact .pure (.success hab hc)

theorem optional {p : Recognizer γ α} {q : Recognizer γ' β} (h : Refines L V p q) :
    Refines L (Option.Rel V) p.optional q.optional :=
  (h.action fun _ _ hab => .some hab).optionalOr .none

/-- A bound on the rounds is enough when it is no smaller than the other one, or when it is larger
than the number of symbols, each of which can serve one round only. -/
theorem row {p : Recognizer γ α} {q : Recognizer γ' β} (h : Refines L V p q)
    {budget budget' : Nat} (found : Nat) {c : γ} {c' : γ'} (hc : L.Moves c c' c c')
    (hb : budget ≤ budget' ∨ (Cursor.remaining c').length < budget') :
    Run.Refines L.Notes (fun x y => List.Forall₂ V x.1 y.1 ∧ L.Moves c c' x.2 y.2)
      (p.row budget found c) (q.row budget' found c') := by
  induction budget generalizing budget' found c c' with
  | zero => exact .unfinished _
  | succ budget ih =>
    obtain ⟨budget', rfl⟩ : ∃ n, budget' = n + 1 := Nat.exists_eq_add_one.mpr (by omega)
    apply (h c c' hc).bind
    intro o o' ho
    cases ho with
    | failure => exact .pure ⟨.nil, hc⟩
    | @success a b d d' hab hd =>
      have hstall := L.position_eq_iff hd
      dsimp only
      by_cases hpos : Cursor.position d = Cursor.position c
      · rw [if_pos hpos, if_pos (hstall.mp hpos)]
        apply Run.Refines.bind (Run.Refines.note (L.stalled found hc))
        intro _ _ _
        exact .pure ⟨.nil, hc⟩
      · have hpos' := fun heq => hpos (hstall.mpr heq)
        have hlt := L.remaining_lt hd hpos'
        rw [if_neg hpos, if_neg hpos']
        apply (ih (found + 1) (L.stay hd) (by omega)).bind
        intro x y hxy
        exact .pure ⟨.cons hab hxy.1, L.trans hd hxy.2⟩

theorem many {p : Recognizer γ α} {q : Recognizer γ' β} (h : Refines L V p q)
    {budget budget' : Nat} (min : Nat) (hb : budget ≤ budget' ∨
      ∀ c c', L.Moves c c' c c' → (Cursor.remaining c').length < budget') :
    Refines L (List.Forall₂ V) (.many budget p min) (.many budget' q min) := by
  intro c c' hc
  have hb' := hb.imp_right fun hlt => hlt c c' hc
  apply (h.row 0 hc hb').bind
  intro x y hxy
  obtain ⟨vs, d⟩ := x
  obtain ⟨ws, d'⟩ := y
  have hlen : vs.length = ws.length := hxy.1.length_eq
  dsimp only
  by_cases hmin : min ≤ vs.length
  · rw [if_pos hmin, if_pos (hlen ▸ hmin)]
    exact .pure (.success hxy.1 hxy.2)
  · rw [if_neg hmin, if_neg (hlen ▸ hmin)]
    exact .pure .failure

variable {R : σ → σ' → Prop} (hL : L.Reads R)

include hL

theorem anySymbol : Refines L R .anySymbol .anySymbol := by
  intro c c' hc
  simp only [Recognizer.anySymbol]
  rcases hL.current_cases hc with ⟨hs, hs'⟩ | ⟨s, s', hs, hs', hss⟩
  · rw [hs, hs']
    exact .pure .failure
  · have hadv := hL.advance hc (by simp [hs])
    rw [hs, hs']
    exact .pure (.success hss hadv)

theorem oneOf [BEq σ] [BEq σ'] {symbols : List σ} {symbols' : List σ'}
    (haccepts : ∀ s s', R s s' → accepts symbols s = accepts symbols' s') :
    Refines L R (.oneOf symbols) (.oneOf symbols') := by
  intro c c' hc
  simp only [Recognizer.oneOf]
  rcases hL.current_cases hc with ⟨hs, hs'⟩ | ⟨s, s', hs, hs', hss⟩
  · rw [hs, hs']
    exact .pure .failure
  · have hadv := hL.advance hc (by simp [hs])
    rw [hs, hs']
    dsimp only
    rw [haccepts s s' hss]
    split
    · exact .pure (.success hss hadv)
    · exact .pure .failure

theorem endOfInput {a : α} {b : β} (h : V a b) :
    Refines L V (.endOfInput a) (.endOfInput b) := by
  intro c c' hc
  simp only [Recognizer.endOfInput]
  rcases hL.current_cases hc with ⟨hs, hs'⟩ | ⟨s, s', hs, hs', -⟩
  · have hex : Cursor.isExhausted c = true := by simp [Cursor.isExhausted, hs]
    have hex' : Cursor.isExhausted c' = true := by simp [Cursor.isExhausted, hs']
    rw [if_pos hex, if_pos hex']
    exact .pure (.success h hc)
  · have hex : ¬ Cursor.isExhausted c = true := by simp [Cursor.isExhausted, hs]
    have hex' : ¬ Cursor.isExhausted c' = true := by simp [Cursor.isExhausted, hs']
    rw [if_neg hex, if_neg hex']
    exact .pure .failure

end Refines

end Recognizer

end Descent
