import Descent.Proofs.Invocation
import Mathlib.Data.List.Chain

/-!
# Records of runs

The machine has one way to go. From the call of a parser to its answer it goes through one sequence
of stacks, which is the record of the run. The record shows the names that the run looks up, in
their order.
-/

namespace Descent

variable {γ σ δ : Type}

/-- The name that the invocation is about to look up. -/
def Frame.lookup? (f : Frame γ σ δ) : Option (GrammarId × String) :=
  match f.parser, f.answers with
  | .reference g name, [] => some (g, name)
  | _, _ => none

namespace Stack

/-- The name that the innermost invocation is about to look up. -/
def lookup? (s : Stack γ σ δ) : Option (GrammarId × String) := s.head?.bind Frame.lookup?

theorem eq_cons_of_lookup? {s : Stack γ σ δ} {g : GrammarId} {name : String}
    (h : s.lookup? = some (g, name)) : ∃ c fs, s = .start (.reference g name) c :: fs := by
  rcases s with _ | ⟨⟨p, c, answers⟩, fs⟩
  · cases h
  · simp only [lookup?, Frame.lookup?, List.head?_cons, Option.bind_some] at h
    split at h
    · cases h
      exact ⟨c, fs, rfl⟩
    · cases h

theorem lookup?_append {s : Stack γ σ δ} {x : GrammarId × String} (h : s.lookup? = some x)
    (fs : Stack γ σ δ) : lookup? (s ++ fs) = some x := by
  obtain ⟨c, rest, rfl⟩ := eq_cons_of_lookup? h
  exact h

variable [Cursor γ σ] [BEq σ]

/-- The stack after the next step, none after the last one. -/
def next? (r : Registry σ δ) : Stack γ σ δ → Option (Stack γ σ δ)
  | [] => none
  | f :: fs =>
    match f.move r, fs with
    | .call p c, _ => some (.start p c :: f :: fs)
    | .stop _, [] => none
    | .stop a, g :: gs => some (g.answered a :: gs)

/-- The stacks of at most so many steps, the first included. -/
def trace (r : Registry σ δ) : Nat → Stack γ σ δ → List (Stack γ σ δ)
  | 0, s => [s]
  | n + 1, s => s :: ((s.next? r).map (trace r n)).getD []

variable {r : Registry σ δ} {s t t' : Stack γ σ δ}

theorem step_iff_next? : Step r s t ↔ s.next? r = some t := by
  constructor
  · intro h
    cases h with
    | call hcall => simp only [next?, hcall]
    | answer hstop => simp only [next?, hstop]
  · intro h
    rcases s with _ | ⟨f, fs⟩
    · cases h
    · simp only [next?] at h
      split at h
      next hcall =>
        cases h
        exact .call hcall
      · cases h
      next hstop =>
        cases h
        exact .answer hstop

theorem Step.deterministic (h : Step r s t) (h' : Step r s t') : t = t' := by
  rw [step_iff_next?] at h h'
  exact Option.some.inj (h.symm.trans h')

theorem head?_trace (n : Nat) (s : Stack γ σ δ) : (trace r n s).head? = some s := by
  cases n <;> rfl

theorem isChain_trace (n : Nat) (s : Stack γ σ δ) : (trace r n s).IsChain (Step r) := by
  induction n generalizing s with
  | zero => exact .singleton s
  | succ n ih =>
    rw [trace]
    cases hnext : s.next? r with
    | none => exact .singleton s
    | some t =>
      refine List.isChain_cons.mpr ⟨fun u hu => ?_, ih t⟩
      rw [Option.map_some, Option.getD_some, head?_trace] at hu
      obtain rfl := Option.some.inj hu
      exact step_iff_next?.mpr hnext

/-- What happens on top of a stack does not depend on the rest of it. -/
theorem Steps.append (h : Steps r s t) (fs : Stack γ σ δ) : Steps r (s ++ fs) (t ++ fs) := by
  induction h with
  | refl => exact .refl
  | tail _ hstep ih =>
    apply ih.tail
    cases hstep with
    | call hcall => exact .call hcall
    | answer hstop => exact .answer hstop

/-- A look-up that finds no parser ends the run. -/
theorem result?_of_lookup?_error [LawfulCursor γ] {p : Parser σ δ} {c : γ} {g : GrammarId}
    {name : String} {e : GrammarError} (h : Steps r [.start p c] s)
    (hlookup : s.lookup? = some (g, name)) (he : r.resolve g name = .error e) :
    (p.parse r c).result? = some (.error e) := by
  obtain ⟨d, fs, rfl⟩ := eq_cons_of_lookup? hlookup
  have hsound := sound_of_steps h
  have hstop : (Frame.start (.reference g name) d).move r = .stop (.error e) := by
    simp only [Frame.move, Frame.start, Parser.strategy, he]
    rfl
  exact (hsound.result?_error (hsound.result?_of_stop hstop)).2

end Stack

variable [Cursor γ σ] [BEq σ]

open Stack (Step Steps)

/-- The stacks that a run goes through, from the call of a parser to the return of its answer. -/
structure Record (r : Registry σ δ) (p : Parser σ δ) (c : γ) (a : Answer γ σ δ) where
  course : List (Stack γ σ δ)
  isChain : course.IsChain (Step r)
  head?_eq : course.head? = some [.start p c]
  last : ∃ answers, course.getLast? = some [⟨p, c, answers⟩] ∧ p.strategy r c answers = .stop a

namespace Record

variable {r : Registry σ δ} {p : Parser σ δ} {c : γ} {a : Answer γ σ δ}

/-- The names that the run looks up, in order. -/
def lookups (record : Record r p c a) : List (GrammarId × String) :=
  record.course.filterMap Stack.lookup?

theorem steps_of_mem (record : Record r p c a) {s : Stack γ σ δ} (h : s ∈ record.course) :
    Steps r [.start p c] s := by
  refine record.isChain.induction (Steps r [.start p c]) _ (fun s t hst hs => hs.tail hst) ?_ s h
  intro hne
  rw [List.head_of_head?_eq_some record.head?_eq]

/-- The machine has nowhere else to go. -/
theorem mem_of_steps (record : Record r p c a) {s : Stack γ σ δ} (h : Steps r [.start p c] s) :
    s ∈ record.course := by
  induction h with
  | refl => exact List.mem_of_mem_head? record.head?_eq
  | @tail s t _ hstep ih =>
    obtain ⟨i, hi, rfl⟩ := List.mem_iff_getElem.mp ih
    by_cases hlast : i + 1 < record.course.length
    · have hnext := List.isChain_iff_getElem.mp record.isChain i hlast
      rw [hstep.deterministic hnext]
      exact List.getElem_mem hlast
    · obtain ⟨answers, hget, hstop⟩ := record.last
      have hend : record.course[i] = [⟨p, c, answers⟩] := by
        rw [List.getLast?_eq_getElem?, List.getElem?_eq_some_iff] at hget
        obtain ⟨hlt, hget⟩ := hget
        rw [← hget]
        congr 1
        omega
      rw [hend] at hstep
      cases hstep with
      | call hcall => cases hcall.symm.trans hstop

theorem mem_lookups_iff (record : Record r p c a) {x : GrammarId × String} :
    x ∈ record.lookups ↔ ∃ s, Steps r [.start p c] s ∧ s.lookup? = some x := by
  rw [lookups, List.mem_filterMap]
  constructor
  · rintro ⟨s, hs, hx⟩
    exact ⟨s, record.steps_of_mem hs, hx⟩
  · rintro ⟨s, hs, hx⟩
    exact ⟨s, record.mem_of_steps hs, hx⟩

/-- A parser comes to an answer exactly when there is a record of how it does. -/
theorem nonempty_iff [LawfulCursor γ] :
    Nonempty (Record r p c a) ↔ (p.parse r c).result? = some a := by
  rw [Stack.parse_result?_iff_steps]
  constructor
  · rintro ⟨record⟩
    obtain ⟨answers, hget, hstop⟩ := record.last
    exact ⟨answers, record.steps_of_mem (List.mem_of_getLast? hget), hstop⟩
  · rintro ⟨answers, hsteps, hstop⟩
    obtain ⟨later, hchain, hlast⟩ := List.exists_isChain_cons_of_relationReflTransGen hsteps
    refine ⟨⟨_, hchain, rfl, answers, ?_, hstop⟩⟩
    rw [List.getLast?_eq_getLast_of_ne_nil (List.cons_ne_nil _ later), hlast]

/-- The record of a run that is over within so many steps. -/
def ofTrace (n : Nat)
    (h : ∃ answers, (Stack.trace r n [.start p c]).getLast? = some [⟨p, c, answers⟩] ∧
      p.strategy r c answers = .stop a) : Record r p c a where
  course := Stack.trace r n [.start p c]
  isChain := Stack.isChain_trace n _
  head?_eq := Stack.head?_trace n _
  last := h

end Record

end Descent
