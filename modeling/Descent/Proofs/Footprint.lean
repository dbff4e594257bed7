import Descent.Proofs.Record

/-!
# What a run depends on

A run depends on a registry through the names that it looks up and through nothing else: where two
registries agree on these names, it is one run, with the same events. Where they do not, the runs
go the same way up to the first name on which they differ.
-/

namespace Descent

open Recognizer (Refines)
open Strategy (Follows)
open Stack (Step Steps)

variable {γ σ δ α β : Type}

/-- Both registries have the same to say about a name. -/
def Registry.Agree (r r' : Registry σ δ) (x : GrammarId × String) : Prop :=
  r'.resolve x.1 x.2 = r.resolve x.1 x.2

namespace Recognizer

open Classical in
/-- The answers that two recognizers have in common. -/
noncomputable def common (p q : Recognizer γ α) : Recognizer γ α :=
  fun c => if p c = q c then p c else .unfinished

variable {γ' σ' : Type} [Cursor γ σ] [Cursor γ' σ'] {L : Lockstep γ γ'} {V : α → β → Prop}
variable {p q : Recognizer γ α} {p' : Recognizer γ' β}

theorem Refines.common_left (h : Refines L V p p') : Refines L V (p.common q) p' := by
  intro c c' hc
  rw [common]
  split
  · exact h c c' hc
  · exact .unfinished _

theorem Refines.common_right (h : Refines L V q p') : Refines L V (p.common q) p' := by
  intro c c' hc
  rw [common]
  split
  next heq =>
    rw [heq]
    exact h c c' hc
  · exact .unfinished _

end Recognizer

variable [Cursor γ σ] [BEq σ] {r r' : Registry σ δ}

namespace Parser

variable {p : Parser σ δ}

/-- Only a reference has to do with the registry itself. -/
theorem strategy_eq_of_agree (h : ∀ g name, p = .reference g name → r.Agree r' (g, name)) (c : γ) :
    p.strategy r' c = p.strategy r c := by
  cases p with
  | reference g name =>
    have hresolve : r'.resolve g name = r.resolve g name := h g name rfl
    simp only [strategy, hresolve]
  | leaf x => exact x.elim
  | _ => rfl

theorem step_eq_of_agree (h : ∀ g name, p = .reference g name → r.Agree r' (g, name))
    (rounds : Nat) (run : Parser σ δ → Recognizer γ (Value σ δ)) :
    step r' rounds run p = step r rounds run p := by
  cases p with
  | reference g name =>
    have hresolve : r'.resolve g name = r.resolve g name := h g name rfl
    funext c
    simp only [step, hresolve]
  | leaf x => exact x.elim
  | _ => rfl

variable [LawfulCursor γ]

theorem parse_refines_self {S : γ → Prop} (hS : Lockstep.Closed S) (r : Registry σ δ)
    (p : Parser σ δ) : Refines (.within hS) Eq (p.parse (γ := γ) r) (p.parse r) := by
  intro c c' hc
  obtain ⟨⟨rfl, hcS⟩, -⟩ := hc
  have hrefines := recognizer_refines r (Lockstep.within_reads hS) (Nat.le_refl (budget r p c')) p
  exact hrefines c' c' (Lockstep.within_moves_self hS hcS)

/-- Where the calls of a run go alike under two registries, and the name that it looks up itself
means the same, the run goes alike. -/
theorem parse_eq_of_follows {run : Parser σ δ → Recognizer γ (Value σ δ)} {c : γ}
    {answers : List (Answer γ σ δ)} {a : Answer γ σ δ}
    (hself : ∀ g name, p = .reference g name → r.Agree r' (g, name))
    (hfollows : Follows run (p.strategy r c) answers) (hstop : p.strategy r c answers = .stop a)
    (hcalls : ∀ before q d b, Follows run (p.strategy r c) before →
      p.strategy r c before = .call q d → (run q d).result? = some b →
      (q.parse r d).result? = some b ∧ q.parse r' d = q.parse r d) :
    p.parse r' c = p.parse r c := by
  let hS := Lockstep.closed_reachable c
  let rounds := (Cursor.remaining c).length + 1 + answers.length
  let shared (q : Parser σ δ) : Recognizer γ (Value σ δ) := .common (q.parse r) (q.parse r')
  have hresult : (step r rounds shared p c).result? = some a := by
    apply (step_realizes r rounds shared p c).result_eq (hfollows.transfer ?_) hstop
      (Nat.le_add_left _ _)
    intro before q d b hbefore hcall hb
    obtain ⟨hq, heq⟩ := hcalls before q d b hbefore hcall hb
    have hshared : shared q d = q.parse r d := if_pos heq.symm
    exact ⟨q, hcall, hshared ▸ hq⟩
  have hne : step r rounds shared p c ≠ .unfinished := by
    intro hnone
    rw [hnone] at hresult
    cases hresult
  have hleft : Refines (.within hS) Eq (step r rounds shared p)
      (step r rounds (fun q => q.parse r) p) :=
    step_refines r (Lockstep.within_reads hS) p (.inl (Nat.le_refl rounds))
      (fun q _ => (parse_refines_self hS r q).common_left)
      (fun _ _ body _ _ => (parse_refines_self hS r body).common_left)
  have hright : Refines (.within hS) Eq (step r' rounds shared p)
      (step r' rounds (fun q => q.parse r') p) :=
    step_refines r' (Lockstep.within_reads hS) p (.inl (Nat.le_refl rounds))
      (fun q _ => (parse_refines_self hS r' q).common_right)
      (fun _ _ body _ _ => (parse_refines_self hS r' body).common_right)
  rw [step_eq_of_agree hself rounds shared] at hright
  have hrounds : (Cursor.remaining c).length < rounds := by omega
  calc p.parse r' c = step r' rounds (fun q => q.parse r') p c := parse_eq_step r' p hrounds
    _ = step r rounds shared p c := (hright.eq_of_ne_unfinished ⟨0, .zero c⟩ hne).symm
    _ = step r rounds (fun q => q.parse r) p c := hleft.eq_of_ne_unfinished ⟨0, .zero c⟩ hne
    _ = p.parse r c := (parse_eq_step r p hrounds).symm

/-- By induction on the budget: what a parser calls looks up nothing that the parser itself does
not. -/
theorem parse_eq_of_agree {budget : Nat} {c : γ} {a : Answer γ σ δ}
    (hagree : ∀ s x, Steps r [.start p c] s → s.lookup? = some x → r.Agree r' x)
    (h : (recognizer r budget p c).result? = some a) : p.parse r' c = p.parse r c := by
  induction budget generalizing p c a with
  | zero => cases h
  | succ budget ih =>
    obtain ⟨answers, hfollows, hstop⟩ := exists_answers_of_recognizer r h
    refine parse_eq_of_follows ?_ hfollows hstop ?_
    · rintro g name rfl
      exact hagree _ (g, name) .refl rfl
    · intro before q d b hbefore hcall hb
      have hparse : (q.parse r d).result? = some b := by
        rw [← hb, recognizer_eq_parse_of_ne_unfinished]
        intro hnone
        rw [hnone] at hb
        cases hb
      refine ⟨hparse, ih (fun s x hs hx => ?_) hb⟩
      have hcalled : Steps r [.start p c] ([.start q d] ++ [⟨p, c, before⟩]) :=
        (Stack.steps_of_follows [] (fun _ _ _ fs h => Stack.exists_steps_of_recognizer fs h)
          hbefore).tail (.call hcall)
      exact hagree _ x (hcalled.trans (hs.append [⟨p, c, before⟩])) (Stack.lookup?_append hx _)

/-- Registries in which all names mean the same are all the same to every run, one that does not end
included. -/
theorem parse_eq_of_resolve_eq (h : ∀ g name, r'.resolve g name = r.resolve g name)
    (p : Parser σ δ) (c : γ) : p.parse r' c = p.parse r c := by
  cases hresult : (p.parse r c).result? with
  | some a => exact parse_eq_of_agree (fun _ x _ _ => h x.1 x.2) hresult
  | none =>
    cases hresult' : (p.parse r' c).result? with
    | some a => exact (parse_eq_of_agree (fun _ x _ _ => (h x.1 x.2).symm) hresult').symm
    | none => rw [Run.result?_eq_none_iff.mp hresult, Run.result?_eq_none_iff.mp hresult']

end Parser

namespace Stack

/-- The registries agree on every name whose reference is at work, except perhaps on the name that
is about to be looked up. -/
def Settled (r r' : Registry σ δ) (s : Stack γ σ δ) : Prop :=
  ∀ f ∈ s, ∀ g name, f.parser = .reference g name →
    s.lookup? = some (g, name) ∨ r.Agree r' (g, name)

omit [Cursor γ σ] [BEq σ] in
theorem settled_start (p : Parser σ δ) (c : γ) : Settled r r' [.start p c] := by
  intro f hf g name hp
  obtain rfl := List.mem_singleton.mp hf
  obtain rfl : p = .reference g name := hp
  exact .inl rfl

/-- Where the registries agree on the name that is about to be looked up, they make the same
step. -/
theorem Settled.step {s t : Stack γ σ δ} (hs : Settled r r' s)
    (hagree : ∀ x, s.lookup? = some x → r.Agree r' x) (h : Step r s t) :
    Step r' s t ∧ Settled r r' t := by
  have hall : ∀ f ∈ s, ∀ g name, f.parser = .reference g name → r.Agree r' (g, name) :=
    fun f hf g name hp => (hs f hf g name hp).elim (hagree (g, name)) id
  have hmove (f : Frame γ σ δ) (hf : f ∈ s) : f.move r' = f.move r :=
    congrFun (Parser.strategy_eq_of_agree (hall f hf) f.cursor) f.answers
  cases h with
  | @call f fs q d hcall =>
    refine ⟨.call ((hmove f List.mem_cons_self).trans hcall), ?_⟩
    intro f' hf' g name hp
    rcases List.mem_cons.mp hf' with rfl | hf'
    · obtain rfl : q = .reference g name := hp
      exact .inl rfl
    · exact .inr (hall f' hf' g name hp)
  | @answer f f' fs a hstop =>
    refine ⟨.answer ((hmove f List.mem_cons_self).trans hstop), ?_⟩
    intro f'' hf'' g name hp
    rcases List.mem_cons.mp hf'' with rfl | hf''
    · exact .inr (hall f' (by simp) g name hp)
    · exact .inr (hall f'' (by simp [hf'']) g name hp)

end Stack

namespace Record

variable {p : Parser σ δ} {c : γ} {a : Answer γ σ δ} (record : Record r p c a)
include record

/-- A run that looks up a name without a parser reports it. -/
theorem eq_error_of_mem_lookups [LawfulCursor γ] {g : GrammarId} {name : String} {e : GrammarError}
    (h : (g, name) ∈ record.lookups) (he : r.resolve g name = .error e) : a = .error e := by
  obtain ⟨s, hsteps, hlookup⟩ := record.mem_lookups_iff.mp h
  have hresult := nonempty_iff.mp ⟨record⟩
  exact Option.some.inj
    (hresult.symm.trans (Stack.result?_of_lookup?_error hsteps hlookup he))

/-- Registries that agree on the names that a run looks up give one run. -/
theorem parse_eq_of_agree [LawfulCursor γ] (h : ∀ x ∈ record.lookups, r.Agree r' x) :
    p.parse r' c = p.parse r c := by
  have hresult := nonempty_iff.mp ⟨record⟩
  refine Parser.parse_eq_of_agree (fun s x hs hx => h x ?_) hresult
  exact record.mem_lookups_iff.mpr ⟨s, hs, hx⟩

/-- Up to the first name on which the registries do not agree, the machine goes the same way. -/
theorem steps_of_agree {i : Nat} (hi : i < record.course.length)
    (hagree : ∀ (j : Nat) (hj : j < i) x, record.course[j].lookup? = some x → r.Agree r' x) :
    Steps r' [.start p c] record.course[i] ∧ Stack.Settled r r' record.course[i] := by
  induction i with
  | zero =>
    have hhead : record.course[0] = [.start p c] := by
      have hhead := record.head?_eq
      rw [List.head?_eq_getElem?, List.getElem?_eq_some_iff] at hhead
      exact hhead.2
    rw [hhead]
    exact ⟨.refl, Stack.settled_start p c⟩
  | succ i ih =>
    obtain ⟨hsteps, hsettled⟩ := ih (Nat.lt_of_succ_lt hi)
      fun j hj => hagree j (Nat.lt_succ_of_lt hj)
    have hstep := List.isChain_iff_getElem.mp record.isChain i hi
    obtain ⟨hstep', hsettled'⟩ := hsettled.step (hagree i (Nat.lt_succ_self i)) hstep
    exact ⟨hsteps.tail hstep', hsettled'⟩

/-- When the first of some names that a run looks up has become an error, and the other names mean
what they did, the run ends in that error. -/
theorem result?_of_find?_lookups [LawfulCursor γ] {P : GrammarId × String → Bool}
    (hagree : ∀ x ∈ record.lookups, P x = false → r.Agree r' x) {g : GrammarId} {name : String}
    {e : GrammarError} (hfind : record.lookups.find? P = some (g, name))
    (he : r'.resolve g name = .error e) : (p.parse r' c).result? = some (.error e) := by
  rw [lookups, List.find?_filterMap, Option.bind_eq_some_iff] at hfind
  obtain ⟨s, hs, hlookup⟩ := hfind
  obtain ⟨-, i, hi, rfl, hbefore⟩ := List.find?_eq_some_iff_getElem.mp hs
  have hsettled : Steps r' [.start p c] record.course[i] ∧ Stack.Settled r r' record.course[i] := by
    apply record.steps_of_agree hi
    intro j hj x hx
    have hmem : x ∈ record.lookups := List.mem_filterMap.mpr ⟨_, List.getElem_mem _, hx⟩
    have hPx := hbefore j hj
    rw [hx, Option.any_some, Bool.not_eq_true'] at hPx
    exact hagree x hmem hPx
  exact Stack.result?_of_lookup?_error hsettled.1 hlookup he

end Record

end Descent
