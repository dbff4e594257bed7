import Descent.Proofs.Rounds

/-!
# What every match ensures

A postcondition relates the cursor before a match, its value, and the rest. Each way to combine
recognizers has a rule that takes postconditions of the parts to one of the whole. Repetitions and
sequences collect: a postcondition of single matches is extended to the list of all of them.
-/

namespace Descent.Recognizer

variable {γ σ α β : Type}

/-- Whatever `p` makes of a cursor, a match meets the condition on cursor, value and rest. -/
def Ensures (Q : γ → α → γ → Prop) (p : Recognizer γ α) : Prop :=
  ∀ c value rest, (p c).result? = some (.ok (.success value rest)) → Q c value rest

/-- One match after another, each with `P`, have `Q` together. -/
structure Collects (P : γ → α → γ → Prop) (Q : γ → List α → γ → Prop) : Prop where
  nil (c : γ) : Q c [] c
  cons {c middle rest : γ} {value : α} {values : List α} :
    P c value middle → Q middle values rest → Q c (value :: values) rest

theorem Collects.mono {P P' : γ → α → γ → Prop} {Q : γ → List α → γ → Prop}
    (h : Collects P Q) (hP : ∀ c value rest, P' c value rest → P c value rest) :
    Collects P' Q where
  nil := h.nil
  cons hvalue hvalues := h.cons (hP _ _ _ hvalue) hvalues

namespace Ensures

variable {P : γ → α → γ → Prop} {p : Recognizer γ α}

theorem mono {Q : γ → α → γ → Prop} (h : Ensures P p)
    (hPQ : ∀ c value rest, P c value rest → Q c value rest) : Ensures Q p :=
  fun c value rest hp => hPQ c value rest (h c value rest hp)

theorem succeed {value : α} (h : ∀ c, P c value c) : Ensures P (.succeed value) := by
  intro c v rest hsuccess
  cases hsuccess
  exact h c

theorem action {Q : γ → β → γ → Prop} {f : α → β} (h : Ensures P p)
    (hPQ : ∀ c value rest, P c value rest → Q c (f value) rest) : Ensures Q (p.action f) := by
  intro c value rest hp
  obtain ⟨inner, hinner, rfl⟩ := action_success_iff.mp hp
  exact hPQ c inner rest (h c inner rest hinner)

theorem pair {P' : γ → β → γ → Prop} {Q : γ → α × β → γ → Prop} {q : Recognizer γ β}
    (h : Ensures P p) (h' : Ensures P' q)
    (hQ : ∀ c first middle second rest, P c first middle → P' middle second rest →
      Q c (first, second) rest) : Ensures Q (p.pair q) := by
  intro c value rest hp
  obtain ⟨first, middle, hfirst, hrest⟩ := andThen_success_iff.mp hp
  obtain ⟨second, hsecond, rfl⟩ := action_success_iff.mp hrest
  exact hQ c first middle second rest (h c first middle hfirst) (h' middle second rest hsecond)

theorem choice {ps : List (Recognizer γ α)} (h : ∀ p ∈ ps, Ensures P p) :
    Ensures P (.choice ps) := by
  induction ps with
  | nil =>
    intro c value rest hp
    cases hp
  | cons p ps ih =>
    intro c value rest hp
    rw [result?_choice_cons] at hp
    split at hp
    · exact ih (fun q hq => h q (List.mem_cons_of_mem p hq)) c value rest hp
    · exact h p List.mem_cons_self c value rest hp

theorem optionalOr {absent : α} (h : Ensures P p) (habsent : ∀ c, P c absent c) :
    Ensures P (p.optionalOr absent) := by
  intro c value rest hp
  rw [result?_optionalOr] at hp
  split at hp
  · cases hp
    exact habsent c
  · exact h c value rest hp

theorem sequence {Q : γ → List α → γ → Prop} {ps : List (Recognizer γ α)}
    (h : ∀ p ∈ ps, Ensures P p) (hQ : Collects P Q) : Ensures Q (.sequence ps) := by
  induction ps with
  | nil => exact succeed hQ.nil
  | cons p ps ih =>
    intro c values rest hp
    obtain ⟨value, middle, hvalue, hrest⟩ := andThen_success_iff.mp hp
    obtain ⟨tail, htail, rfl⟩ := action_success_iff.mp hrest
    have hps := ih fun q hq => h q (List.mem_cons_of_mem p hq)
    exact hQ.cons (h p List.mem_cons_self c value middle hvalue) (hps middle tail rest htail)

variable [Cursor γ σ]

theorem anySymbol {Q : γ → σ → γ → Prop}
    (h : ∀ c s, Cursor.current c = some s → Q c s (Cursor.advance c)) :
    Ensures Q Recognizer.anySymbol := by
  intro c value rest hp
  simp only [Recognizer.anySymbol] at hp
  split at hp
  next s hs =>
    cases hp
    exact h c _ hs
  · cases hp

theorem oneOf [BEq σ] {Q : γ → σ → γ → Prop} {symbols : List σ}
    (h : ∀ c s, Cursor.current c = some s → accepts symbols s = true → Q c s (Cursor.advance c)) :
    Ensures Q (Recognizer.oneOf symbols) := by
  intro c value rest hp
  simp only [Recognizer.oneOf] at hp
  split at hp
  next s hs =>
    split at hp
    next haccepts =>
      cases hp
      exact h c _ hs haccepts
    · cases hp
  · cases hp

theorem endOfInput {value : α} (h : ∀ c, Cursor.isExhausted c = true → P c value c) :
    Ensures P (Recognizer.endOfInput value) := by
  intro c v rest hp
  simp only [Recognizer.endOfInput] at hp
  split at hp
  next hexhausted =>
    cases hp
    exact h c hexhausted
  · cases hp

/-- A match in a row is kept only when it moves the position. -/
theorem rounds {Q : γ → List α → γ → Prop} (h : Ensures P p)
    (hQ : Collects (fun c value rest =>
      P c value rest ∧ Cursor.position rest ≠ Cursor.position c) Q)
    {c last : γ} {values : List α} (hrounds : Rounds p c values last) : Q c values last := by
  induction hrounds with
  | nil c => exact hQ.nil c
  | cons hp hpos _ ih => exact hQ.cons ⟨h _ _ _ hp, hpos⟩ ih

theorem many {Q : γ → List α → γ → Prop} (h : Ensures P p)
    (hQ : Collects (fun c value rest =>
      P c value rest ∧ Cursor.position rest ≠ Cursor.position c) Q)
    (budget min : Nat) :
    Ensures (fun c values rest => min ≤ values.length ∧ Q c values rest)
      (Recognizer.many budget p min) := by
  intro c values rest hmany
  obtain ⟨hrounds, -, -, hmin⟩ := many_success_iff.mp hmany
  exact ⟨hmin, h.rounds hQ hrounds⟩

end Ensures

end Descent.Recognizer
