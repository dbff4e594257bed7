import Descent.Grammar.Bindings
import Descent.Proofs.Congruence
import Mathlib.Algebra.Order.BigOperators.Group.List
import Mathlib.Tactic.Ring

/-!
# The budget suffices

A parser of this library that finishes under some budget finishes under the one that `Parser.parse`
sets, with the same answer. So `parse` is unfinished only where no budget is enough, and it obeys
the equation of a parser without any budget: it is the meaning made from the meanings of its parts.
-/

namespace Descent

open Cursor (Reaches)

namespace Lockstep

variable {γ σ : Type} [Cursor γ σ] (S : γ → Prop)

/-- A set of places that steps from symbols do not leave. -/
def Closed : Prop := ∀ c, S c → Cursor.current c ≠ none → S (Cursor.advance c)

variable {S}

theorem Closed.stepsKeep (hS : Closed S) : StepsKeep (fun c c' : γ => c' = c ∧ S c) where
  length_eq := by
    intro c _ hd
    obtain ⟨rfl, -⟩ := hd
    rfl
  advance := by
    intro c _ hd hcur
    obtain ⟨rfl, hc⟩ := hd
    exact ⟨rfl, hS _ hc hcur⟩

variable [LawfulCursor γ]

/-- The lockstep of two runs on one cursor that stays within a set of places. -/
def within (hS : Closed S) : Lockstep γ γ :=
  ofSteps hS.stepsKeep Eq
    (by rintro c _ n ⟨rfl, -⟩; rfl)
    (by rintro c _ name ⟨rfl, -⟩; rfl)

theorem within_reads (hS : Closed S) : (within hS).Reads Eq := by
  apply ofSteps_reads
  intro _ c hd
  obtain ⟨rfl, -⟩ := hd
  cases Cursor.current c with
  | none => exact .none
  | some s => exact .some rfl

theorem within_moves_self (hS : Closed S) {c : γ} (hc : S c) : (within hS).Moves c c c c :=
  ofSteps_moves_self ⟨rfl, hc⟩

theorem closed_reachable (c : γ) : Closed (fun d => ∃ k, Reaches k c d) := by
  intro d hd hcur
  obtain ⟨k, hk⟩ := hd
  exact ⟨k + 1, hk.trans (.one hcur)⟩

end Lockstep

namespace Recognizer.Refines

variable {γ σ α : Type} [Cursor γ σ] [LawfulCursor γ] {S : γ → Prop} {hS : Lockstep.Closed S}
variable {p q : Recognizer γ α}

theorem matches_at {β : Type} {V : α → β → Prop} {q : Recognizer γ β}
    (h : Refines (.within hS) V p q) {c : γ} (hc : S c) :
    Run.Refines Eq (Outcome.Matches V Eq) (p c) (q c) := by
  apply (h c c (Lockstep.within_moves_self hS hc)).mono
  intro o o' ho
  apply ho.mono
  intro d d' hmoves
  obtain ⟨-, k, hd, hd'⟩ := hmoves
  rw [hd.2, hd'.2]

theorem eq_of_ne_unfinished (h : Refines (.within hS) Eq p q) {c : γ} (hc : S c)
    (hp : p c ≠ .unfinished) : p c = q c := by
  have hpq : Run.Refines Eq Eq (p c) (q c) := by
    apply (h.matches_at hc).mono
    intro o o' ho
    cases ho with
    | failure => rfl
    | success hab hd => rw [hab, hd]
  exact hpq.eq_of_finished hp

theorem eq_of_refines (h : Refines (.within hS) Eq p q) (h' : Refines (.within hS) Eq q p)
    {c : γ} (hc : S c) : p c = q c := by
  by_cases hp : p c = .unfinished
  · by_cases hq : q c = .unfinished
    · rw [hp, hq]
    · exact (h'.eq_of_ne_unfinished hc hq).symm
  · exact h.eq_of_ne_unfinished hc hp

/-- Recognizers that agree on a set of places can stand for one another there. -/
theorem of_agree (h : Refines (.within hS) Eq p p) (heq : ∀ c, S c → p c = q c) :
    Refines (.within hS) Eq p q ∧ Refines (.within hS) Eq q p := by
  constructor
  all_goals
    intro c c' hd
    obtain ⟨⟨rfl, hcS⟩, -⟩ := hd
    have hself := h c' c' (Lockstep.within_moves_self hS hcS)
    rwa [heq c' hcS] at hself ⊢

end Recognizer.Refines

namespace Parser

open Recognizer (Refines)

variable {γ γ' σ δ : Type} [Cursor γ σ] [Cursor γ' σ] [BEq σ] (r : Registry σ δ)

section Step

variable {L : Lockstep γ γ'} {rounds rounds' : Nat}
variable {run : Parser σ δ → Recognizer γ (Value σ δ)}
variable {run' : Parser σ δ → Recognizer γ' (Value σ δ)}

/-- When the meanings of what a parser runs next are refined, so is its own meaning. -/
theorem step_refines (hL : L.Reads Eq) (p : Parser σ δ)
    (hrounds : rounds ≤ rounds' ∨
      ∀ c c', L.Moves c c' c c' → (Cursor.remaining c').length < rounds')
    (hparts : ∀ q ∈ p.parts, Refines L Eq (run q) (run' q))
    (hbody : ∀ g name body, p = .reference g name → r.resolve g name = .ok body →
      Refines L Eq (run body) (run' body)) :
    Refines L Eq (step r rounds run p) (step r rounds' run' p) :=
  (Congruent.refl hparts hbody).step_refines (fun _ => hL) Value.corresponds_eq hrounds

end Step

/-- A larger budget changes no answer. -/
theorem recognizer_refines {L : Lockstep γ γ'} (hL : L.Reads Eq) {budget budget' : Nat}
    (hb : budget ≤ budget') (p : Parser σ δ) :
    Refines L Eq (recognizer (γ := γ) r budget p) (recognizer r budget' p) := by
  apply recognizer_refines_of_congruent hL Value.corresponds_eq (T := Eq) _ hb rfl
  rintro q _ rfl
  exact .refl (fun _ _ => rfl) fun _ _ _ _ _ => rfl

section Adequacy

variable [LawfulCursor γ]

theorem recognizer_eq_of_le {budget budget' : Nat} (hb : budget ≤ budget') {p : Parser σ δ}
    {c : γ} (h : recognizer r budget p c ≠ .unfinished) :
    recognizer r budget p c = recognizer r budget' p c := by
  have hS : Lockstep.Closed (fun _ : γ => True) := fun _ _ _ => trivial
  exact (recognizer_refines r (Lockstep.within_reads hS) hb p).eq_of_ne_unfinished trivial h

/-- What is unfinished under a budget is so under every smaller one. -/
theorem recognizer_unfinished_of_le {budget budget' : Nat} (hb : budget ≤ budget')
    {p : Parser σ δ} {c : γ} (h : recognizer r budget' p c = .unfinished) :
    recognizer r budget p c = .unfinished := by
  by_contra hne
  have heq := recognizer_eq_of_le r hb hne
  exact hne (heq.trans h)

/-- The least budget under which a parser finishes is one more than some budget under which it
does not. -/
theorem exists_last_unfinished {budget : Nat} {p : Parser σ δ} {c : γ}
    (h : recognizer r budget p c ≠ .unfinished) :
    ∃ last < budget, recognizer r last p c = .unfinished ∧
      recognizer r (last + 1) p c = recognizer r budget p c := by
  induction budget with
  | zero => exact absurd rfl h
  | succ budget ih =>
    by_cases hprev : recognizer r budget p c = .unfinished
    · exact ⟨budget, Nat.lt_succ_self budget, hprev, rfl⟩
    · obtain ⟨last, hlt, hlast, heq⟩ := ih hprev
      refine ⟨last, Nat.lt_succ_of_lt hlt, hlast, heq.trans ?_⟩
      exact recognizer_eq_of_le r (Nat.le_succ budget) hprev

/-- The heights of the rule bodies that a run may still come upon, each at its place. -/
def pendingHeight (pending : List (Parser σ δ × γ)) : Nat :=
  (pending.map fun b => b.1.height).sum

omit [Cursor γ σ] [LawfulCursor γ] [BEq σ] in
theorem pendingHeight_append_cons (before later : List (Parser σ δ × γ)) (p : Parser σ δ) (c : γ) :
    pendingHeight (before ++ (p, c) :: later) = p.height + pendingHeight (before ++ later) := by
  simp only [pendingHeight, List.map_append, List.map_cons, List.sum_append, List.sum_cons]
  omega

/-- A run that finishes never comes back to a rule body at a place where that body is still
running. So while `pending` holds every body and place that is not running already, its heights
bound the depth that is left. -/
theorem recognizer_refines_of_pending {S : γ → Prop} (hS : Lockstep.Closed S) {size : Nat}
    (hsize : ∀ c, S c → (Cursor.remaining c).length < size) (budget : Nat) (p : Parser σ δ)
    (pending : List (Parser σ δ × γ))
    (hpending : ∀ body ∈ r.bodies, ∀ c, S c →
      (body, c) ∈ pending ∨ recognizer r budget body c = .unfinished)
    {enough : Nat} (henough : p.height + pendingHeight pending + size ≤ enough) :
    Refines (.within hS) Eq (recognizer (γ := γ) r (budget + 1) p) (recognizer r enough p) := by
  induction budget using Nat.strongRecOn generalizing p pending enough with
  | ind budget ih =>
    have hpos := p.height_pos
    obtain ⟨enough, rfl⟩ := Nat.exists_eq_add_one.mpr (by omega : 0 < enough)
    refine step_refines r (Lockstep.within_reads hS) p (.inr fun c c' hc => ?_) (fun q hq => ?_) ?_
    · obtain ⟨⟨rfl, hcS⟩, -⟩ := hc
      have hlt := hsize _ hcS
      omega
    · have hlt := height_lt_of_mem_parts hq
      cases budget with
      | zero => exact .unfinished _
      | succ budget =>
        refine ih budget (Nat.lt_succ_self budget) q pending (fun body hbody c hc => ?_) (by omega)
        apply (hpending body hbody c hc).imp_right
        intro h
        exact recognizer_unfinished_of_le r (Nat.le_succ budget) h
    · intro g name body _ hres c c' hc
      obtain ⟨⟨rfl, hcS⟩, -⟩ := hc
      by_cases hfin : recognizer r budget body c' = .unfinished
      · rw [hfin]
        exact .unfinished _
      -- The body is entered for the first time here, so it can be taken off the list.
      have hmem := (hpending body (r.mem_bodies_of_resolve hres) c' hcS).resolve_right hfin
      obtain ⟨before, later, rfl⟩ := List.append_of_mem hmem
      obtain ⟨last, hlt, hlast, heq⟩ := exists_last_unfinished r hfin
      have hrest (other : Parser σ δ) (hother : other ∈ r.bodies) (d : γ) (hd : S d) :
          (other, d) ∈ before ++ later ∨ recognizer r last other d = .unfinished := by
        rcases hpending other hother d hd with hin | hun
        · rw [List.mem_append, List.mem_cons] at hin
          rcases hin with hin | heq' | hin
          · exact .inl (List.mem_append_left _ hin)
          · obtain ⟨rfl, rfl⟩ := Prod.mk.inj heq'
            exact .inr hlast
          · exact .inl (List.mem_append_right _ hin)
        · exact .inr (recognizer_unfinished_of_le r (Nat.le_of_lt hlt) hun)
      rw [pendingHeight_append_cons] at henough
      have hbody := ih last hlt body (before ++ later) hrest (by omega : _ ≤ enough)
      rw [← heq]
      exact hbody c' c' (Lockstep.within_moves_self hS hcS)

omit [BEq σ] in
theorem totalHeight_eq_sum : r.totalHeight = (r.bodies.map Parser.height).sum := by
  rw [Registry.totalHeight, List.sum, List.foldr_map]

/-- Every rule body at every place that can be reached from a cursor. -/
def bodiesFrom (c : γ) : List (Parser σ δ × γ) :=
  (List.range ((Cursor.remaining c).length + 1)).flatMap fun k =>
    r.bodies.map fun body => (body, Cursor.advanceBy k c)

omit [BEq σ] [LawfulCursor γ] in
theorem mem_bodiesFrom {body : Parser σ δ} (hbody : body ∈ r.bodies) {k : Nat} {c d : γ}
    (hd : Reaches k c d) : (body, d) ∈ bodiesFrom r c := by
  refine List.mem_flatMap.mpr ⟨k, List.mem_range.mpr (Nat.lt_succ_of_le hd.1), ?_⟩
  exact List.mem_map.mpr ⟨body, hbody, by rw [hd.2]⟩

omit [BEq σ] [LawfulCursor γ] in
theorem pendingHeight_bodiesFrom (c : γ) :
    pendingHeight (bodiesFrom r c) = ((Cursor.remaining c).length + 1) * r.totalHeight := by
  simp only [pendingHeight, bodiesFrom, totalHeight_eq_sum]
  generalize (Cursor.remaining c).length + 1 = n
  induction n with
  | zero => simp
  | succ n ih =>
    rw [List.range_succ, List.flatMap_append, List.map_append, List.sum_append, ih]
    simp [Function.comp_def, Nat.succ_mul]

omit [BEq σ] [LawfulCursor γ] in
theorem pendingHeight_lt_budget (p : Parser σ δ) (c : γ) :
    p.height + pendingHeight (bodiesFrom r c) + ((Cursor.remaining c).length + 1) ≤
      budget r p c := by
  rw [pendingHeight_bodiesFrom, budget]
  generalize (Cursor.remaining c).length = n
  generalize r.totalHeight = t
  have hexpand : (n + 2) * (p.height + t + 1) =
      (n + 1) * t + (n + 1) * p.height + (p.height + t) + (n + 2) := by ring
  omega

/-- Whatever a budget answers, `parse` answers. -/
theorem recognizer_eq_parse_of_ne_unfinished {budget : Nat} {p : Parser σ δ} {c : γ}
    (h : recognizer r budget p c ≠ .unfinished) : recognizer r budget p c = p.parse r c := by
  cases budget with
  | zero => exact absurd rfl h
  | succ budget =>
    have hsize (d : γ) (hd : ∃ k, Reaches k c d) :
        (Cursor.remaining d).length < (Cursor.remaining c).length + 1 := by
      obtain ⟨k, hk⟩ := hd
      have hlen := hk.length_remaining
      omega
    have hrefines := recognizer_refines_of_pending r (Lockstep.closed_reachable c) hsize budget p
      (bodiesFrom r c) (fun body hbody d ⟨k, hk⟩ => .inl (mem_bodiesFrom r hbody hk))
      (pendingHeight_lt_budget r p c)
    exact hrefines.eq_of_ne_unfinished ⟨0, .zero c⟩ h

theorem recognizer_eq_parse {n : Nat} {p : Parser σ δ} {c : γ} (h : budget r p c ≤ n) :
    recognizer r n p c = p.parse r c := by
  by_cases hn : recognizer r n p c = .unfinished
  · rw [hn, parse, recognizer_unfinished_of_le r h hn]
  · exact recognizer_eq_parse_of_ne_unfinished r hn

omit [BEq σ] in
/-- One budget serves all parsers up to a height at all places that can be reached. -/
theorem exists_common_budget (height : Nat) (c : γ) :
    ∃ n, (Cursor.remaining c).length < n ∧ ∀ q : Parser σ δ, q.height ≤ height →
      ∀ d, (∃ k, Reaches k c d) → budget r q d ≤ n := by
  refine ⟨((Cursor.remaining c).length + 2) * (height + r.totalHeight + 1) + 1, ?_, ?_⟩
  · have hle := Nat.le_mul_of_pos_right ((Cursor.remaining c).length + 2)
      (by omega : 0 < height + r.totalHeight + 1)
    omega
  · intro q hq d hd
    obtain ⟨k, hk⟩ := hd
    have hlen := hk.length_remaining
    have hle := Nat.mul_le_mul (by omega : (Cursor.remaining d).length + 2 ≤
      (Cursor.remaining c).length + 2)
      (by omega : q.height + r.totalHeight + 1 ≤ height + r.totalHeight + 1)
    exact Nat.succ_le_succ hle

omit [BEq σ] in
theorem height_le_totalHeight {body : Parser σ δ} (h : body ∈ r.bodies) :
    body.height ≤ r.totalHeight := by
  rw [totalHeight_eq_sum]
  exact List.le_sum_of_mem (List.mem_map_of_mem h)

/-- A parser means what its parts mean together, with no budget in sight. The bound on the rounds
of a repetition may be any that the input cannot use up. -/
theorem parse_eq_step (p : Parser σ δ) {c : γ} {rounds : Nat}
    (hrounds : (Cursor.remaining c).length < rounds) :
    p.parse r c = step r rounds (fun q => q.parse r) p c := by
  obtain ⟨n, hn, hbudget⟩ := exists_common_budget r (p.height + r.totalHeight) c
  let hS := Lockstep.closed_reachable c
  have hagree (q : Parser σ δ) (hq : q.height ≤ p.height + r.totalHeight) :=
    (recognizer_refines r (Lockstep.within_reads hS) (Nat.le_refl n) q).of_agree
      fun d hd => recognizer_eq_parse r (hbudget q hq d hd)
  have hpart (q : Parser σ δ) (hq : q ∈ p.parts) := hagree q (by
    have hlt := height_lt_of_mem_parts hq
    omega)
  have hbody (g : GrammarId) (name : String) (body : Parser σ δ)
      (hres : r.resolve g name = .ok body) := hagree body (by
    have hle := height_le_totalHeight r (r.mem_bodies_of_resolve hres)
    omega)
  have hlength (d d' : γ) (hd : (Lockstep.within hS).Moves d d' d d') :
      (Cursor.remaining d').length ≤ (Cursor.remaining c).length := by
    obtain ⟨⟨rfl, k, hk⟩, -⟩ := hd
    have hlen := hk.length_remaining
    omega
  have hleft : Refines (.within hS) Eq (step (γ := γ) r n (recognizer r n) p)
      (step r rounds (fun q => q.parse r) p) :=
    step_refines r (Lockstep.within_reads hS) p
      (.inr fun d d' hd => Nat.lt_of_le_of_lt (hlength d d' hd) hrounds)
      (fun q hq => (hpart q hq).1) (fun g name body _ hres => (hbody g name body hres).1)
  have hright : Refines (.within hS) Eq (step (γ := γ) r rounds (fun q => q.parse r) p)
      (step r n (recognizer r n) p) :=
    step_refines r (Lockstep.within_reads hS) p
      (.inr fun d d' hd => Nat.lt_of_le_of_lt (hlength d d' hd) hn)
      (fun q hq => (hpart q hq).2) (fun g name body _ hres => (hbody g name body hres).2)
  have hsucc := Nat.le_succ_of_le
    (hbudget p (Nat.le_add_right p.height r.totalHeight) c ⟨0, .zero c⟩)
  calc p.parse r c = recognizer r (n + 1) p c := (recognizer_eq_parse r hsucc).symm
    _ = step r n (recognizer r n) p c := rfl
    _ = step r rounds (fun q => q.parse r) p c := hleft.eq_of_refines hright ⟨0, .zero c⟩

/-! The equation for parsers of some kinds, at all cursors at once. -/

theorem parse_oneOf (symbols : List σ) :
    (oneOf symbols).parse (γ := γ) r = (Recognizer.oneOf symbols).action Value.symbol :=
  funext fun _ => parse_eq_step r _ (Nat.lt_succ_self _)

theorem parse_pair (p q : Parser σ δ) :
    (pair p q).parse (γ := γ) r =
      (Recognizer.pair (p.parse r) (q.parse r)).action fun v => .pair v.1 v.2 :=
  funext fun _ => parse_eq_step r _ (Nat.lt_succ_self _)

theorem parse_choice (ps : List (Parser σ δ)) :
    (choice ps).parse (γ := γ) r = Recognizer.choice (ps.map fun p => p.parse r) :=
  funext fun _ => parse_eq_step r _ (Nat.lt_succ_self _)

theorem parse_action (p : Parser σ δ) (f : Value σ δ → Value σ δ) :
    (action p f).parse (γ := γ) r = Recognizer.action (p.parse r) f :=
  funext fun _ => parse_eq_step r _ (Nat.lt_succ_self _)

/-- The rounds may be any number that the input cannot use up. -/
theorem parse_many (p : Parser σ δ) (min : Nat) {c : γ} {rounds : Nat}
    (h : (Cursor.remaining c).length < rounds) :
    (many p min).parse r c = (Recognizer.many rounds (p.parse r) min).action Value.list c :=
  parse_eq_step r _ h

end Adequacy

end Parser

end Descent
