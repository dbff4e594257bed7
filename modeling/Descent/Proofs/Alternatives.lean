import Descent.Proofs.Sequencing

/-!
# Laws of ordered choice

A choice comes to what the first of its alternatives comes to that does not fail. So alternatives may
be put in groups within groups, and what fails wherever all alternatives before it fail may be left
out. Alternatives that begin alike may share their beginning, which then runs once.
-/

namespace Descent.Recognizer

variable {γ σ α β : Type}

/-- Runs the second recognizer where the first one has failed. -/
def orElse (p q : Recognizer γ α) : Recognizer γ α := fun c => do
  match ← p c with
  | .success value rest => pure (.success value rest)
  | .failure => q c

theorem choice_cons (p : Recognizer γ α) (ps : List (Recognizer γ α)) :
    choice (p :: ps) = p.orElse (choice ps) := rfl

theorem reject_orElse (p : Recognizer γ α) : reject.orElse p = p :=
  funext fun _ => pure_bind _ _

theorem orElse_reject (p : Recognizer γ α) : p.orElse reject = p := by
  funext c
  refine (bind_congr fun o => ?_).trans (bind_pure (p c))
  cases o <;> rfl

theorem orElse_assoc (p q q' : Recognizer γ α) :
    (p.orElse q).orElse q' = p.orElse (q.orElse q') := by
  funext c
  simp only [orElse, bind_assoc]
  congr 1
  funext o
  cases o with
  | success value rest => exact pure_bind _ _
  | failure => rfl

theorem orElse_action (p q : Recognizer γ α) (f : α → β) :
    (p.orElse q).action f = (p.action f).orElse (q.action f) := by
  funext c
  simp only [action, orElse, bind_assoc, pure_bind]
  congr 1
  funext o
  cases o with
  | success value rest => exact pure_bind _ _
  | failure => rfl

theorem choice_append (ps qs : List (Recognizer γ α)) :
    choice (ps ++ qs) = (choice ps).orElse (choice qs) := by
  induction ps with
  | nil => exact (reject_orElse _).symm
  | cons p ps ih => rw [List.cons_append, choice_cons, choice_cons, ih, orElse_assoc]

theorem choice_action (ps : List (Recognizer γ α)) (f : α → β) :
    (choice ps).action f = choice (ps.map fun p => p.action f) := by
  induction ps with
  | nil => exact funext fun _ => pure_bind _ _
  | cons p ps ih => rw [choice_cons, orElse_action, ih, List.map_cons, choice_cons]

/-- There is no match, and nothing is wrong with the grammar. -/
def FailsAt (p : Recognizer γ α) (c : γ) : Prop := (p c).result? = some (.ok .failure)

section FailsAt

variable {p q : Recognizer γ α} {ps qs : List (Recognizer γ α)} {c : γ}

theorem result?_orElse_of_not (h : ¬ p.FailsAt c) (q : Recognizer γ α) :
    (p.orElse q c).result? = (p c).result? := by
  rw [FailsAt] at h
  rw [orElse, Run.result?_bind]
  rcases hp : (p c).result? with _ | _ | _ | _
  case some.ok.failure => exact absurd hp h
  all_goals rfl

theorem failsAt_orElse_iff : (p.orElse q).FailsAt c ↔ p.FailsAt c ∧ q.FailsAt c := by
  by_cases hp : p.FailsAt c
  · have hq : (p.orElse q c).result? = (q c).result? := by
      rw [FailsAt] at hp
      rw [orElse, Run.result?_bind, hp]
    rw [FailsAt, hq, and_iff_right hp, FailsAt]
  · rw [FailsAt, result?_orElse_of_not hp]
    exact ⟨fun h => absurd h hp, fun h => h.1⟩

theorem failsAt_choice_iff : (choice ps).FailsAt c ↔ ∀ p ∈ ps, p.FailsAt c := by
  induction ps with
  | nil => exact iff_of_true rfl nofun
  | cons p ps ih => rw [choice_cons, failsAt_orElse_iff, ih, List.forall_mem_cons]

/-- What is behind the first alternative that does not fail is of no account. -/
theorem result?_choice_of_not_failsAt (h : ∀ q ∈ ps, q.FailsAt c) (hp : ¬ p.FailsAt c)
    (qs : List (Recognizer γ α)) : (choice (ps ++ p :: qs) c).result? = (p c).result? := by
  rw [result?_choice_append h, choice_cons, result?_orElse_of_not hp]

/-- What fails wherever all alternatives before it have failed makes no difference. -/
theorem result?_choice_insert (h : (∀ p ∈ ps, p.FailsAt c) → q.FailsAt c) :
    (choice (ps ++ q :: qs) c).result? = (choice (ps ++ qs) c).result? := by
  by_cases hps : ∀ p ∈ ps, p.FailsAt c
  · rw [result?_choice_append hps, result?_choice_append hps, result?_choice_cons, h hps]
  · have hchoice : ¬ (choice ps).FailsAt c := mt failsAt_choice_iff.mp hps
    rw [choice_append, choice_append, result?_orElse_of_not hchoice,
      result?_orElse_of_not hchoice]

/-- Choices between runs that come to the same things come to the same. -/
theorem result?_choice_congr {ι : Type} {run run' : ι → Recognizer γ α} {is : List ι} {c c' : γ}
    (h : ∀ i ∈ is, (run i c).result? = (run' i c').result?) :
    (choice (is.map run) c).result? = (choice (is.map run') c').result? := by
  induction is with
  | nil => rfl
  | cons i is ih =>
    obtain ⟨hi, his⟩ := List.forall_mem_cons.mp h
    rw [List.map_cons, List.map_cons, result?_choice_cons, result?_choice_cons, hi, ih his]

end FailsAt

/-- Fails nowhere. There may be errors, or no end. -/
def NeverFails (p : Recognizer γ α) : Prop := ∀ c, ¬ p.FailsAt c

theorem neverFails_optionalOr (p : Recognizer γ α) (absent : α) :
    (p.optionalOr absent).NeverFails := by
  intro c h
  rw [FailsAt, result?_optionalOr] at h
  split at h
  next => cases h
  next hp => exact hp h

theorem neverFails_many [Cursor γ σ] (p : Recognizer γ α) (budget : Nat) :
    (many budget p 0).NeverFails := by
  intro c h
  rw [FailsAt, result?_many] at h
  simp only [Nat.zero_le, if_true] at h
  rcases hrow : (p.row budget 0 c).result? with _ | _ | _ <;> rw [hrow] at h <;> cases h

/-- Alternatives in groups, which may hold groups themselves. -/
inductive Grouping (γ α : Type) where
  | one (p : Recognizer γ α)
  | group (parts : List (Grouping γ α))

namespace Grouping

mutual

/-- The alternatives in their order, without the groups. -/
def alternatives : Grouping γ α → List (Recognizer γ α)
  | one p => [p]
  | group parts => alternativesOfAll parts

def alternativesOfAll : List (Grouping γ α) → List (Recognizer γ α)
  | [] => []
  | g :: gs => g.alternatives ++ alternativesOfAll gs

end

mutual

/-- A choice for each group. -/
def recognizer : Grouping γ α → Recognizer γ α
  | one p => p
  | group parts => choice (recognizers parts)

def recognizers : List (Grouping γ α) → List (Recognizer γ α)
  | [] => []
  | g :: gs => g.recognizer :: recognizers gs

end

mutual

theorem recognizer_eq_choice (g : Grouping γ α) : g.recognizer = choice g.alternatives := by
  cases g with
  | one p => rw [recognizer, alternatives, choice_cons, choice, orElse_reject]
  | group parts => rw [recognizer, alternatives, choice_recognizers_eq parts]

theorem choice_recognizers_eq (gs : List (Grouping γ α)) :
    choice (recognizers gs) = choice (alternativesOfAll gs) := by
  cases gs with
  | nil => rfl
  | cons g gs =>
    rw [recognizers, alternativesOfAll, choice_cons, choice_append, recognizer_eq_choice g,
      choice_recognizers_eq gs]

end

end Grouping

/-- An ordered choice fails where all its alternatives fail, and otherwise it comes to whatever the
first of them comes to that does not. So it makes no difference how the alternatives are grouped, nor
whether anything at all stands behind one that never fails, or any alternative stands there once
more. An option never fails, nor does a repetition without a minimum. -/
theorem choice_first_wins [Cursor γ σ] (ps : List (Recognizer γ α)) :
    (∀ c, (∀ p ∈ ps, p.FailsAt c) → (choice ps).FailsAt c) ∧
    (∀ before p after c, ps = before ++ p :: after → (∀ q ∈ before, q.FailsAt c) →
      ¬ p.FailsAt c → (choice ps c).result? = (p c).result?) ∧
    (∀ g : Grouping γ α, g.alternatives = ps → g.recognizer = choice ps) ∧
    (∀ before q after, ps = before ++ after → (q ∈ before ∨ ∃ p ∈ before, p.NeverFails) →
      ∀ c, (choice (before ++ q :: after) c).result? = (choice ps c).result?) ∧
    (∀ p : Recognizer γ α, p.optional.NeverFails ∧ (∀ absent, (p.optionalOr absent).NeverFails) ∧
      ∀ budget, (many budget p 0).NeverFails) := by
  refine ⟨fun c h => failsAt_choice_iff.mpr h, ?_, ?_, ?_, ?_⟩
  · intro before p after c hps hbefore hp
    rw [hps, result?_choice_of_not_failsAt hbefore hp]
  · intro g hg
    rw [g.recognizer_eq_choice, hg]
  · intro before q after hps hq c
    rw [hps]
    apply result?_choice_insert
    intro hbefore
    rcases hq with hq | ⟨p, hp, hnever⟩
    · exact hbefore q hq
    · exact absurd (hbefore p hp) (hnever c)
  · intro p
    exact ⟨neverFails_optionalOr _ none, neverFails_optionalOr p, neverFails_many p⟩

end Descent.Recognizer

namespace Descent.Signs

open Recognizer (Grouping choice)

/-- A minus sign. -/
def minus : Recognizer (SliceCursor Char) (Option Char) := (Recognizer.oneOf ['-']).action some

/-- A sign, or none. -/
def sign : Recognizer (SliceCursor Char) (Option Char) := (Recognizer.oneOf ['+', '-']).optional

def broken : Recognizer (SliceCursor Char) (Option Char) := fun _ => .fail (.unboundRule "sign")

def endless : Recognizer (SliceCursor Char) (Option Char) := fun _ => .unfinished

/-- Behind the optional sign nothing is ever run, be it an error or a run without end. Without the
option the error is the first that does not fail. -/
theorem sign_first_wins :
    let c := SliceCursor.ofArray #['+', '7']
    (choice [minus, minus]).FailsAt c ∧
    (choice [minus, broken, endless] c).result? = some (.error (.unboundRule "sign")) ∧
    (Grouping.group [.one minus, .group [.group [.one sign], .one broken]]).recognizer =
      choice [minus, sign, broken] ∧
    (∀ d, (choice [minus, sign, endless, broken] d).result? =
      (choice [minus, sign, broken] d).result?) ∧
    (∀ d, (choice [minus, broken, minus, endless] d).result? =
      (choice [minus, broken, endless] d).result?) ∧
    (choice [minus, sign, broken] c).result? =
      some (.ok (.success (some '+') (.reading #['+', '7'] 1))) := by
  intro c
  have hminus : minus.FailsAt c := rfl
  have hbroken : ¬ broken.FailsAt c := nofun
  obtain ⟨-, -, -, -, hnever⟩ :=
    Recognizer.choice_first_wins ([] : List (Recognizer (SliceCursor Char) Char))
  have hsign : sign.NeverFails := (hnever (Recognizer.oneOf ['+', '-'])).1
  obtain ⟨hfails, -⟩ := Recognizer.choice_first_wins [minus, minus]
  obtain ⟨-, hfirst, -, hduplicate, -⟩ := Recognizer.choice_first_wins [minus, broken, endless]
  obtain ⟨-, -, hgroup, hinsert, -⟩ := Recognizer.choice_first_wins [minus, sign, broken]
  refine ⟨hfails c ?_, hfirst [minus] broken [endless] c rfl ?_ hbroken, hgroup _ rfl, ?_, ?_, rfl⟩
  · exact List.forall_mem_cons.mpr ⟨hminus, List.forall_mem_singleton.mpr hminus⟩
  · exact List.forall_mem_singleton.mpr hminus
  · exact hinsert [minus, sign] endless [broken] rfl (.inr ⟨sign, by simp, hsign⟩)
  · exact hduplicate [minus, broken] minus [endless] rfl (.inl (by simp))

end Descent.Signs

namespace Descent.Recognizer

variable {γ α : Type}

/-- Alternatives that begin alike come to what their common beginning and then a choice between
their ends come to. -/
theorem choice_factored (ps qs : List (Recognizer γ α)) (qss : List (List (Recognizer γ α)))
    (c : γ) :
    (choice ((qs :: qss).map fun qs => sequence (ps ++ qs)) c).result? =
      (((sequence ps).pair (choice ((qs :: qss).map sequence))).action
        (fun v => v.1 ++ v.2) c).result? := by
  have hpair : ((sequence ps).pair (choice ((qs :: qss).map sequence))).action
        (fun v => v.1 ++ v.2) =
      (sequence ps).andThen fun values =>
        (choice ((qs :: qss).map sequence)).action (values ++ ·) := by
    simp only [pair, action_eq_andThen, andThen_andThen, succeed_andThen]
  rw [hpair, result?_andThen]
  rcases hps : (sequence ps c).result? with _ | e | ⟨values, rest⟩ | _
  case some.ok.success =>
    dsimp only
    rw [choice_action, List.map_map]
    apply result?_choice_congr
    intro qs _
    rw [sequence_append, result?_andThen, hps]
    rfl
  case some.ok.failure =>
    refine failsAt_choice_iff.mpr (List.forall_mem_map.mpr fun qs _ => ?_)
    rw [FailsAt, sequence_append, result?_andThen, hps]
  -- Without an outcome of the beginning, the first alternative is the last one to run.
  all_goals rw [List.map_cons, result?_choice_cons, sequence_append, result?_andThen, hps]

end Descent.Recognizer
