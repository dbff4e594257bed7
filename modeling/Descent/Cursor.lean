/-!
# Cursors

A cursor is a place in an input: it shows the symbol there, and steps past it. A lawful cursor is
pinned down by the list of symbols still to be read: stepping drops the head of that list, and
raises the position exactly when there was a head to drop.
-/

namespace Descent

/-- A place in an input of symbols `σ`. -/
class Cursor (γ : Type) (σ : outParam Type) where
  /-- The symbol at the cursor, none at the end of the input. -/
  current : γ → Option σ
  advance : γ → γ
  /-- A number for the place, which tells two places of one input apart. -/
  position : γ → Nat
  remaining : γ → List σ

namespace Cursor

variable {γ σ : Type} [Cursor γ σ]

def isExhausted (c : γ) : Bool := (current c).isNone

def advanceBy : Nat → γ → γ
  | 0, c => c
  | n + 1, c => advanceBy n (advance c)

end Cursor

/-- The laws that tie a cursor's steps to the symbols still to be read. -/
class LawfulCursor (γ : Type) {σ : Type} [Cursor γ σ] : Prop where
  current_eq_head? (c : γ) : Cursor.current c = (Cursor.remaining c).head?
  remaining_advance (c : γ) : Cursor.remaining (Cursor.advance c) = (Cursor.remaining c).tail
  position_lt_advance (c : γ) :
    Cursor.current c ≠ none → Cursor.position c < Cursor.position (Cursor.advance c)

/-- Cursors that keep the whole input `ς`, read and unread. -/
class SourcedCursor (γ : Type) {σ : outParam Type} [Cursor γ σ] (ς : outParam Type) where
  source : γ → ς
  source_advance (c : γ) : source (Cursor.advance c) = source c

namespace Cursor

variable {γ σ : Type} [Cursor γ σ]

theorem advanceBy_add (m n : Nat) (c : γ) :
    advanceBy (m + n) c = advanceBy n (advanceBy m c) := by
  induction m generalizing c with
  | zero => simp [advanceBy]
  | succ m ih => simpa [Nat.succ_add, advanceBy] using ih (advance c)

theorem advanceBy_succ (n : Nat) (c : γ) : advanceBy (n + 1) c = advance (advanceBy n c) :=
  advanceBy_add n 1 c

theorem source_advanceBy {ς : Type} [SourcedCursor γ ς] (n : Nat) (c : γ) :
    SourcedCursor.source (advanceBy n c) = SourcedCursor.source c := by
  induction n generalizing c with
  | zero => rfl
  | succ n ih => rw [advanceBy, ih, SourcedCursor.source_advance]

variable [LawfulCursor γ]

theorem current_eq_none_iff (c : γ) : current c = none ↔ remaining c = [] := by
  rw [LawfulCursor.current_eq_head?, List.head?_eq_none_iff]

theorem isExhausted_iff (c : γ) : isExhausted c = true ↔ remaining c = [] := by
  rw [isExhausted, Option.isNone_iff_eq_none, current_eq_none_iff]

theorem remaining_eq_cons_of_current {c : γ} {s : σ} (h : current c = some s) :
    remaining c = s :: remaining (advance c) := by
  rw [LawfulCursor.current_eq_head?, List.head?_eq_some_iff] at h
  obtain ⟨rest, h⟩ := h
  simp [LawfulCursor.remaining_advance, h]

theorem remaining_advanceBy (n : Nat) (c : γ) :
    remaining (advanceBy n c) = (remaining c).drop n := by
  induction n generalizing c with
  | zero => simp [advanceBy]
  | succ n ih => simp [advanceBy, ih, LawfulCursor.remaining_advance]

theorem current_advanceBy (n : Nat) (c : γ) : current (advanceBy n c) = (remaining c)[n]? := by
  rw [LawfulCursor.current_eq_head?, remaining_advanceBy, List.head?_drop]

theorem isExhausted_advanceBy_iff (n : Nat) (c : γ) :
    isExhausted (advanceBy n c) = true ↔ (remaining c).length ≤ n := by
  rw [isExhausted_iff, remaining_advanceBy, List.drop_eq_nil_iff]

theorem remaining_ne_nil_of_current {c : γ} (h : current c ≠ none) : remaining c ≠ [] :=
  mt (current_eq_none_iff c).mpr h

/-- `k` steps from `c`, each from a symbol, lead to `d`. -/
def Reaches (k : Nat) (c d : γ) : Prop := k ≤ (remaining c).length ∧ d = advanceBy k c

namespace Reaches

omit [LawfulCursor γ] in
theorem zero (c : γ) : Reaches 0 c c := ⟨Nat.zero_le _, rfl⟩

theorem one {c : γ} (h : current c ≠ none) : Reaches 1 c (advance c) :=
  ⟨List.length_pos_iff.mpr (remaining_ne_nil_of_current h), rfl⟩

variable {j k : Nat} {c d e : γ}

theorem remaining_eq (h : Reaches k c d) : remaining d = (remaining c).drop k := by
  rw [h.2, remaining_advanceBy]

theorem length_remaining (h : Reaches k c d) :
    (remaining d).length + k = (remaining c).length := by
  have hle := h.1
  rw [h.remaining_eq, List.length_drop]
  omega

theorem trans (h : Reaches j c d) (h' : Reaches k d e) : Reaches (j + k) c e := by
  have hlen := h.length_remaining
  have hle := h'.1
  refine ⟨by omega, ?_⟩
  rw [h'.2, h.2, advanceBy_add]

theorem advanceBy_of_le (hjk : j ≤ k) (hk : k ≤ (remaining c).length) :
    Reaches (k - j) (advanceBy j c) (advanceBy k c) := by
  refine ⟨?_, ?_⟩
  · rw [remaining_advanceBy, List.length_drop]
    exact Nat.sub_le_sub_right hk j
  · rw [← advanceBy_add, Nat.add_sub_cancel' hjk]

/-- Before the last step there is always a symbol. -/
theorem isExhausted_eq_false (h : Reaches k c d) (hj : j < k) :
    isExhausted (advanceBy j c) = false := by
  rw [Bool.eq_false_iff, ne_eq, isExhausted_advanceBy_iff, Nat.not_le]
  exact Nat.lt_of_lt_of_le hj h.1

theorem add_le_position (h : Reaches k c d) : position c + k ≤ position d := by
  induction k generalizing d with
  | zero => rw [h.2]; exact Nat.le_refl _
  | succ k ih =>
    have hprev : Reaches k c (advanceBy k c) := ⟨Nat.le_of_succ_le h.1, rfl⟩
    have hcur : current (advanceBy k c) ≠ none := by
      have hex := h.isExhausted_eq_false (Nat.lt_succ_self k)
      intro hnone
      simp [isExhausted, hnone] at hex
    have hlt := LawfulCursor.position_lt_advance _ hcur
    have hle := ih hprev
    rw [h.2, advanceBy_succ]
    omega

/-- Positions coincide exactly when nothing was read. -/
theorem position_eq_iff (h : Reaches k c d) : position d = position c ↔ k = 0 := by
  constructor
  · intro heq
    have hle := h.add_le_position
    omega
  · intro hk
    rw [h.2, hk]
    rfl

theorem position_le (h : Reaches k c d) : position c ≤ position d :=
  Nat.le_trans (Nat.le_add_right _ _) h.add_le_position

end Reaches

end Cursor

end Descent
