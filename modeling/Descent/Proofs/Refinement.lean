import Descent.Outcome
import Descent.Run
import Mathlib.Data.List.Forall2

/-!
# Refinement of runs

One run refines another when it is cut off or when both finish alike. What "alike" means is left to
two relations, one on events and one on values.
-/

namespace Descent

variable {α β α' β' γ γ' : Type}

namespace Run

/-- The first run is cut off, or both finish: with events that match one by one, and in one error
or in values that match. -/
inductive Refines (E : Event → Event → Prop) (V : α → β → Prop) : Run α → Run β → Prop
  | unfinished (y : Run β) : Refines E V .unfinished y
  | error {events events' : List Event} (error : GrammarError) :
      List.Forall₂ E events events' →
      Refines E V (.finished events (.error error)) (.finished events' (.error error))
  | value {events events' : List Event} {a : α} {b : β} :
      List.Forall₂ E events events' → V a b →
      Refines E V (.finished events (.ok a)) (.finished events' (.ok b))

namespace Refines

variable {E : Event → Event → Prop} {V : α → β → Prop} {W : α' → β' → Prop}

theorem pure {a : α} {b : β} (h : V a b) : Refines E V (Pure.pure a) (Pure.pure b) :=
  .value .nil h

theorem mono {V' : α → β → Prop} {x : Run α} {y : Run β} (h : Refines E V x y)
    (hV : ∀ a b, V a b → V' a b) : Refines E V' x y := by
  cases h with
  | unfinished => exact .unfinished y
  | error e hevents => exact .error e hevents
  | value hevents hab => exact .value hevents (hV _ _ hab)

theorem after {earlier earlier' : List Event} {x : Run α} {y : Run β}
    (hearlier : List.Forall₂ E earlier earlier') (h : Refines E V x y) :
    Refines E V (x.after earlier) (y.after earlier') := by
  cases h with
  | unfinished => exact .unfinished _
  | error e hevents =>
    rw [after_finished, after_finished]
    exact .error e (List.rel_append hearlier hevents)
  | value hevents hab =>
    rw [after_finished, after_finished]
    exact .value (List.rel_append hearlier hevents) hab

theorem bind {x : Run α} {y : Run β} {f : α → Run α'} {g : β → Run β'} (h : Refines E V x y)
    (hfg : ∀ a b, V a b → Refines E W (f a) (g b)) : Refines E W (x >>= f) (y >>= g) := by
  cases h with
  | unfinished => exact .unfinished _
  | error e hevents => exact .error e hevents
  | value hevents hab =>
    rw [finished_ok_bind, finished_ok_bind]
    exact (hfg _ _ hab).after hevents

theorem note {event event' : Event} (h : E event event') :
    Refines E Eq (Run.note event) (Run.note event') :=
  .value (.cons h .nil) rfl

/-- With equality for both relations nothing but the cut is left. -/
theorem eq_of_finished {x y : Run α} (h : Refines Eq Eq x y) (hx : x ≠ .unfinished) : x = y := by
  cases h with
  | unfinished => exact absurd rfl hx
  | error e hevents =>
    rw [List.forall₂_eq_eq_eq] at hevents
    rw [hevents]
  | value hevents hab =>
    rw [List.forall₂_eq_eq_eq] at hevents
    rw [hevents, hab]

end Refines

end Run

namespace Outcome

/-- Both are failures, or both are matches with values and rests that match. -/
inductive Matches (V : α → β → Prop) (S : γ → γ' → Prop) : Outcome γ α → Outcome γ' β → Prop
  | success {a : α} {b : β} {rest : γ} {rest' : γ'} :
      V a b → S rest rest' → Matches V S (.success a rest) (.success b rest')
  | failure : Matches V S .failure .failure

namespace Matches

variable {V : α → β → Prop} {W : α' → β' → Prop} {S S' : γ → γ' → Prop}

theorem mono {o : Outcome γ α} {o' : Outcome γ' β} (h : Matches V S o o')
    (hS : ∀ d d', S d d' → S' d d') : Matches V S' o o' := by
  cases h with
  | success hab hrest => exact .success hab (hS _ _ hrest)
  | failure => exact .failure

theorem map {f : α → α'} {g : β → β'} {o : Outcome γ α} {o' : Outcome γ' β}
    (h : Matches V S o o') (hfg : ∀ a b, V a b → W (f a) (g b)) :
    Matches W S (o.map f) (o'.map g) := by
  cases h with
  | success hab hrest => exact .success (hfg _ _ hab) hrest
  | failure => exact .failure

end Matches

end Outcome

end Descent
