import Descent.Error
import Descent.Event

/-!
# Runs

A run sends events and ends in a value or a grammar error. A run that would need more steps than
it was given is unfinished, which keeps it apart from every answer. Runs form a lawful monad: the
second of two runs starts only when the first has a value, and its events come after.
-/

namespace Descent

/-- A computation that reports events and may not finish. -/
inductive Run (α : Type) where
  | unfinished
  /-- The run sent the events, in order, and ended in the result. -/
  | finished (events : List Event) (result : Except GrammarError α)

namespace Run

variable {α β : Type}

@[inline] def note (event : Event) : Run Unit := finished [event] (.ok ())

/-- Goes on with a value, or ends with an error. -/
@[inline] def ofExcept (result : Except GrammarError α) : Run α := finished [] result

@[inline] def fail (error : GrammarError) : Run α := finished [] (.error error)

/-- Puts events before those of a run. A run without events takes them over as they are. -/
@[inline] def after (earlier : List Event) : Run α → Run α
  | unfinished => unfinished
  | finished [] result => finished earlier result
  | finished events result => finished (earlier ++ events) result

@[inline] protected def bind (x : Run α) (f : α → Run β) : Run β :=
  match x with
  | unfinished => unfinished
  | finished events (.error error) => finished events (.error error)
  | finished events (.ok value) => (f value).after events

@[always_inline]
instance : Monad Run where
  pure value := finished [] (.ok value)
  bind := Run.bind

/-- The events of a run, none as long as it has not finished. -/
def events : Run α → List Event
  | unfinished => []
  | finished events _ => events

def result? : Run α → Option (Except GrammarError α)
  | unfinished => none
  | finished _ result => some result

@[simp] theorem after_unfinished (earlier : List Event) :
    (unfinished : Run α).after earlier = unfinished := rfl

@[simp] theorem after_finished (earlier events : List Event) (result : Except GrammarError α) :
    (finished events result).after earlier = finished (earlier ++ events) result := by
  cases events <;> simp [after]

@[simp] theorem after_nil (x : Run α) : x.after [] = x := by
  cases x <;> simp

@[simp] theorem after_after (earlier events : List Event) (x : Run α) :
    (x.after events).after earlier = x.after (earlier ++ events) := by
  cases x <;> simp

theorem pure_def (value : α) : (pure value : Run α) = finished [] (.ok value) := rfl

@[simp] theorem unfinished_bind (f : α → Run β) : (unfinished : Run α) >>= f = unfinished := rfl

@[simp] theorem finished_error_bind (events : List Event) (error : GrammarError) (f : α → Run β) :
    (finished events (.error error) : Run α) >>= f = finished events (.error error) := rfl

@[simp] theorem finished_ok_bind (events : List Event) (value : α) (f : α → Run β) :
    (finished events (.ok value) : Run α) >>= f = (f value).after events := rfl

@[simp] theorem after_bind (events : List Event) (x : Run α) (f : α → Run β) :
    x.after events >>= f = (x >>= f).after events := by
  rcases x with _ | ⟨later, _ | value⟩ <;> simp

instance : LawfulMonad Run := by
  refine LawfulMonad.mk' _ ?_ (fun value f => by simp [pure_def]) ?_
  · rintro _ (_ | ⟨events, _ | value⟩)
    · rfl
    · rfl
    · exact (after_finished events [] (.ok value)).trans (by simp)
  · rintro _ _ _ (_ | ⟨events, _ | value⟩) f g <;> simp

@[simp] theorem result?_unfinished : (unfinished : Run α).result? = none := rfl

@[simp] theorem result?_finished (events : List Event) (result : Except GrammarError α) :
    (finished events result).result? = some result := rfl

@[simp] theorem result?_pure (value : α) : (pure value : Run α).result? = some (.ok value) := rfl

@[simp] theorem result?_ofExcept (result : Except GrammarError α) :
    (ofExcept result).result? = some result := rfl

@[simp] theorem result?_after (earlier : List Event) (x : Run α) :
    (x.after earlier).result? = x.result? := by
  cases x <;> simp

@[simp] theorem result?_note_bind (event : Event) (f : Unit → Run β) :
    (note event >>= f).result? = (f ()).result? :=
  result?_after [event] (f ())

theorem result?_eq_none_iff {x : Run α} : x.result? = none ↔ x = unfinished := by
  cases x <;> simp

theorem result?_eq_some_iff {x : Run α} {result : Except GrammarError α} :
    x.result? = some result ↔ ∃ events, x = finished events result := by
  cases x <;> simp

theorem result?_bind (x : Run α) (f : α → Run β) :
    (x >>= f).result? =
      match x.result? with
      | none => none
      | some (.error error) => some (.error error)
      | some (.ok value) => (f value).result? := by
  rcases x with _ | ⟨events, _ | value⟩ <;> simp

end Run

end Descent
