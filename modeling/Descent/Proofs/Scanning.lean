import Descent.Proofs.Result

/-!
# Scanning

A repetition of a symbol test reads the longest run of symbols that pass the test. It always ends,
and as each of its matches moves ahead it has nothing to report.
-/

namespace Descent

variable {γ σ α : Type} [Cursor γ σ]

/-- The cursor after the longest run of symbols that pass a test. -/
def Cursor.skip (passes : σ → Bool) (c : γ) : γ :=
  advanceBy ((remaining c).takeWhile passes).length c

namespace Cursor

variable {passes : σ → Bool} {c : γ} {s : σ}

theorem reaches_skip (passes : σ → Bool) (c : γ) :
    Reaches ((remaining c).takeWhile passes).length c (skip passes c) :=
  ⟨(List.takeWhile_prefix passes).length_le, rfl⟩

variable [LawfulCursor γ]

theorem remaining_skip (passes : σ → Bool) (c : γ) :
    remaining (skip passes c) = (remaining c).dropWhile passes := by
  have hsplit := (List.takeWhile_append_dropWhile (p := passes) (l := remaining c)).symm
  have hdrop := congrArg (List.drop ((remaining c).takeWhile passes).length) hsplit
  rwa [← remaining_advanceBy, List.drop_left] at hdrop

theorem skip_of_passes (hs : current c = some s) (hpass : passes s = true) :
    skip passes c = skip passes (advance c) := by
  have htake : (remaining c).takeWhile passes =
      s :: (remaining (advance c)).takeWhile passes := by
    rw [remaining_eq_cons_of_current hs, List.takeWhile_cons_of_pos hpass]
  rw [skip, htake, List.length_cons, advanceBy]
  rfl

/-- The symbol behind the run, if there is one, does not pass. -/
theorem current_skip (passes : σ → Bool) (c : γ) (hs : current (skip passes c) = some s) :
    passes s = false := by
  have hhead := List.head?_dropWhile_not passes (remaining c)
  rw [LawfulCursor.current_eq_head?, remaining_skip] at hs
  simpa only [hs] using hhead

end Cursor

namespace Recognizer

variable [BEq σ]

theorem action_oneOf_of_accepts {symbols : List σ} (f : σ → α) {c : γ} {s : σ}
    (hs : Cursor.current c = some s) (haccepts : accepts symbols s = true) :
    (oneOf symbols).action f c = pure (.success (f s) (Cursor.advance c)) := by
  simp [action, oneOf, hs, haccepts, succeed]

theorem action_oneOf_of_rejects {symbols : List σ} (f : σ → α) {c : γ}
    (h : ∀ s, Cursor.current c = some s → accepts symbols s = false) :
    (oneOf symbols).action f c = pure .failure := by
  cases hs : Cursor.current c with
  | none => simp [action, oneOf, hs]
  | some s => simp [action, oneOf, hs, h s hs]

variable [LawfulCursor γ]

/-- A row of symbols of a set ends behind the longest run of them. -/
theorem row_action_oneOf (symbols : List σ) (f : σ → α) {budget : Nat} (found : Nat) {c : γ}
    (hbudget : ((Cursor.remaining c).takeWhile (accepts symbols)).length < budget) :
    ((oneOf symbols).action f).row budget found c =
      pure (((Cursor.remaining c).takeWhile (accepts symbols)).map f,
        Cursor.skip (accepts symbols) c) := by
  induction budget generalizing found c with
  | zero => exact absurd hbudget (Nat.not_lt_zero _)
  | succ budget ih =>
    by_cases hstart : ∃ s, Cursor.current c = some s ∧ accepts symbols s = true
    · obtain ⟨s, hs, haccepts⟩ := hstart
      have htake : (Cursor.remaining c).takeWhile (accepts symbols) =
          s :: (Cursor.remaining (Cursor.advance c)).takeWhile (accepts symbols) := by
        rw [Cursor.remaining_eq_cons_of_current hs, List.takeWhile_cons_of_pos haccepts]
      have hmoves : Cursor.position (Cursor.advance c) ≠ Cursor.position c :=
        Nat.ne_of_gt (LawfulCursor.position_lt_advance c (by simp [hs]))
      have hrest := ih (found + 1) (c := Cursor.advance c) (by
        rw [htake, List.length_cons] at hbudget
        omega)
      rw [row, action_oneOf_of_accepts f hs haccepts, pure_bind]
      dsimp only
      rw [if_neg hmoves, hrest, pure_bind, htake, Cursor.skip_of_passes hs haccepts]
      rfl
    · have hrejects : ∀ s, Cursor.current c = some s → accepts symbols s = false := by
        intro s hs
        simpa using fun haccepts => hstart ⟨s, hs, haccepts⟩
      have htake : (Cursor.remaining c).takeWhile (accepts symbols) = [] := by
        cases hw : Cursor.remaining c with
        | nil => rfl
        | cons s w =>
          have hs : Cursor.current c = some s := by
            rw [LawfulCursor.current_eq_head?, hw]
            rfl
          exact List.takeWhile_cons_of_neg (by simp [hrejects s hs])
      rw [row, action_oneOf_of_rejects f hrejects, pure_bind, Cursor.skip, htake]
      rfl

end Recognizer

end Descent
