import Descent.Proofs.Budget

/-!
# Simulations of parsers

A relation between parsers of two registries simulates if related parsers are built alike from
related parts and bodies, or are known to run alike for a reason of their own. What a parser comes
to, every parser that simulates it comes to as well, on matching places and with no budget in sight.
-/

namespace Descent

open Recognizer (Refines)

variable {γ γ' σ σ' δ δ' α β : Type}

/-- Both runs do not finish, or both finish: with one error, or with values that match. Events may
be any. -/
inductive Run.Concur (V : α → β → Prop) : Run α → Run β → Prop
  | unfinished : Concur V .unfinished .unfinished
  | error (events events' : List Event) (error : GrammarError) :
      Concur V (.finished events (.error error)) (.finished events' (.error error))
  | value (events events' : List Event) {a : α} {b : β} :
      V a b → Concur V (.finished events (.ok a)) (.finished events' (.ok b))

/-- Where neither run gets further than the other one, they concur. -/
theorem Run.Concur.of_refines {E E' : Event → Event → Prop} {V : α → β → Prop}
    {W : β → α → Prop} {x : Run α} {y : Run β} (h : Run.Refines E V x y)
    (h' : Run.Refines E' W y x) : Concur V x y := by
  cases h with
  | unfinished =>
    cases h' with
    | unfinished => exact .unfinished
  | error e _ => exact .error _ _ e
  | value _ hab => exact .value _ _ hab

namespace Parser

variable [Cursor γ σ] [Cursor γ' σ'] [LawfulCursor γ'] [BEq σ] [BEq σ']
variable {r : Registry σ δ} {r' : Registry σ' δ'}
variable {R : σ → σ' → Prop} {V : Value σ δ → Value σ' δ' → Prop} {L : Lockstep γ γ'}

/-- Related parsers are built alike, or the second one runs as the first one does. -/
def Simulates (r : Registry σ δ) (r' : Registry σ' δ') (R : σ → σ' → Prop)
    (V : Value σ δ → Value σ' δ' → Prop) (L : Lockstep γ γ')
    (T : Parser σ δ → Parser σ' δ' → Prop) : Prop :=
  ∀ p p', T p p' → Congruent r r' R V T p p' ∧ (p.Looks → L.Reads R) ∨
    ∀ budget, Refines L V (recognizer r budget p) (p'.parse r')

theorem Simulates.recognizer_refines {T : Parser σ δ → Parser σ' δ' → Prop}
    (hT : Simulates r r' R V L T) (hV : Value.Corresponds R V) (budget : Nat) {p : Parser σ δ}
    {p' : Parser σ' δ'} (h : T p p') :
    Refines L V (recognizer r budget p) (p'.parse r') := by
  induction budget generalizing p p' with
  | zero => exact .unfinished _
  | succ budget ih =>
    rcases hT p p' h with ⟨hcongruent, hreads⟩ | halike
    · intro c c' hc
      let rounds := max budget ((Cursor.remaining c').length + 1)
      have hrounds : (Cursor.remaining c').length < rounds := by omega
      have henough : budget ≤ rounds := Nat.le_max_left _ _
      have hstep := (hcongruent.mono fun q q' hq => ih hq).step_refines hreads hV (.inl henough)
      rw [parse_eq_step r' p' hrounds]
      exact hstep c c' hc
    · exact halike (budget + 1)

theorem Simulates.parse_refines {T : Parser σ δ → Parser σ' δ' → Prop}
    (hT : Simulates r r' R V L T) (hV : Value.Corresponds R V) {p : Parser σ δ}
    {p' : Parser σ' δ'} (h : T p p') : Refines L V (p.parse r) (p'.parse r') :=
  fun c => hT.recognizer_refines hV (budget r p c) h c

end Parser

end Descent
