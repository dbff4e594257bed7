import Descent.Proofs.Peg

/-!
# Verdicts of parsing expressions

The functions from cursors to verdicts that expressions stand for, one rule for each expression. Of
a nonterminal only the function is known, so that recursion between rules stays outside. Whatever
an expression derives is what its function shows.
-/

namespace Descent

variable {γ σ ν α ι : Type}

namespace Verdict

variable [Cursor γ σ]

/-- The verdict on the input from `c` on: the match of a prefix, or a failure. -/
def Shows (c : γ) : Option (List σ) → Verdict γ → Prop
  | some x, v => ∃ rest, v = accept rest ∧ Cursor.remaining c = x ++ Cursor.remaining rest
  | none, v => v = reject

variable {c : γ} {v : Verdict γ} {w x y z : List σ} {o : Option (List σ)}

theorem shows_accept_self (c : γ) : Shows c (some []) (accept c) := ⟨c, rfl, rfl⟩

theorem Shows.andThen_none {next : γ → Verdict γ} (h : Shows c none v) :
    Shows c none (v.andThen next) := by
  obtain rfl : v = reject := h
  rfl

/-- The next verdict is on what a match of `x` leaves. -/
theorem Shows.andThen_some {next : γ → Verdict γ} (h : Shows c (some x) v)
    (hw : Cursor.remaining c = x ++ y)
    (hnext : ∀ rest, Cursor.remaining rest = y → Shows rest o (next rest)) :
    Shows c (o.map (x ++ ·)) (v.andThen next) := by
  obtain ⟨middle, rfl, hmiddle⟩ := h
  have hy : Cursor.remaining middle = y := List.append_cancel_left (hmiddle.symm.trans hw)
  have hrest := hnext middle hy
  cases o with
  | none => exact hrest
  | some z =>
    obtain ⟨rest, hv, hz⟩ := hrest
    refine ⟨rest, hv, ?_⟩
    rw [hmiddle, hz, List.append_assoc]

theorem Shows.orElse_some {other : Verdict γ} (h : Shows c (some x) v) :
    Shows c (some x) (v.orElse other) := by
  obtain ⟨rest, rfl, hx⟩ := h
  exact ⟨rest, rfl, hx⟩

theorem Shows.orElse_none {other : Verdict γ} (h : Shows c none v) (hother : Shows c o other) :
    Shows c o (v.orElse other) := by
  obtain rfl : v = reject := h
  exact hother

theorem Shows.negate_some (h : Shows c (some x) v) : Shows c none (v.negate c) := by
  obtain ⟨rest, rfl, -⟩ := h
  rfl

theorem Shows.negate_none (h : Shows c none v) : Shows c (some []) (v.negate c) := by
  obtain rfl : v = reject := h
  exact shows_accept_self c

variable [LawfulCursor γ] {accepts : σ → Bool} {s : σ}

theorem shows_symbol (hw : Cursor.remaining c = s :: w) (hs : accepts s = true) :
    Shows c (some [s]) (symbol accepts c) := by
  rw [symbol_of_cons hw, if_pos hs]
  refine ⟨Cursor.advance c, rfl, ?_⟩
  rw [LawfulCursor.remaining_advance, hw]
  rfl

theorem shows_symbol_other (hw : Cursor.remaining c = s :: w) (hs : accepts s = false) :
    Shows c none (symbol accepts c) := by
  rw [symbol_of_cons hw, hs]
  rfl

end Verdict

namespace Peg

open Verdict (Shows)

/-- The function that an expression stands for, when the nonterminals with `known` stand for those
of `run`. The free repetition has any function that comes back to itself after a match. -/
inductive Denotes [Cursor γ σ] (known : ν → Prop) (run : ν → γ → Verdict γ) :
    Expr σ ν → (γ → Verdict γ) → Prop
  | empty {f : γ → Verdict γ} : (∀ c, f c = .accept c) → Denotes known run .empty f
  | any {f : γ → Verdict γ} :
      (∀ c, f c = .symbol (fun _ => true) c) → Denotes known run .any f
  | oneOf {f : γ → Verdict γ} {accepts : σ → Bool} :
      (∀ c, f c = .symbol accepts c) → Denotes known run (.oneOf accepts) f
  | rule {name : ν} : known name → Denotes known run (.rule name) (run name)
  | seq {e e' : Expr σ ν} {f g h : γ → Verdict γ} :
      Denotes known run e f → Denotes known run e' g → (∀ c, h c = (f c).andThen g) →
      Denotes known run (.seq e e') h
  | choice {e e' : Expr σ ν} {f g h : γ → Verdict γ} :
      Denotes known run e f → Denotes known run e' g → (∀ c, h c = (f c).orElse (g c)) →
      Denotes known run (.choice e e') h
  | star {e : Expr σ ν} {f h : γ → Verdict γ} :
      Denotes known run e f → (∀ c, h c = ((f c).andThen h).orElse (.accept c)) →
      Denotes known run (.star e) h
  | not {e : Expr σ ν} {f h : γ → Verdict γ} :
      Denotes known run e f → (∀ c, h c = (f c).negate c) → Denotes known run (.not e) h

variable [Cursor γ σ] {known : ν → Prop} {run : ν → γ → Verdict γ}

namespace Denotes

theorem shows [LawfulCursor γ] {rules : ν → Option (Expr σ ν)} {e : Expr σ ν} {w : List σ}
    {o : Option (List σ)} {f : γ → Verdict γ} {c : γ}
    (hrules : ∀ x e, known x → rules x = some e → Denotes known run e (run x))
    (hderives : Derives rules e w o) (hf : Denotes known run e f)
    (hw : Cursor.remaining c = w) : Shows c o (f c) := by
  induction hderives generalizing f c with
  | empty w =>
    cases hf with
    | empty hfc =>
      rw [hfc]
      exact Verdict.shows_accept_self c
  | any s w =>
    cases hf with
    | any hfc =>
      rw [hfc]
      exact Verdict.shows_symbol hw rfl
  | any_end =>
    cases hf with
    | any hfc =>
      rw [hfc]
      exact Verdict.symbol_of_nil _ hw
  | oneOf w hs =>
    cases hf with
    | oneOf hfc =>
      rw [hfc]
      exact Verdict.shows_symbol hw hs
  | oneOf_other w hs =>
    cases hf with
    | oneOf hfc =>
      rw [hfc]
      exact Verdict.shows_symbol_other hw hs
  | oneOf_end accepts =>
    cases hf with
    | oneOf hfc =>
      rw [hfc]
      exact Verdict.symbol_of_nil accepts hw
  | rule hname _ ih =>
    cases hf with
    | rule hknown => exact ih (hrules _ _ hknown hname) hw
  | seq hxy _ _ ih ih' =>
    cases hf with
    | seq hfirst hsecond hfc =>
      rw [hfc]
      exact (ih hfirst hw).andThen_some (hw.trans hxy) fun rest hrest => ih' hsecond hrest
  | seq_first e' _ ih =>
    cases hf with
    | seq hfirst _ hfc =>
      rw [hfc]
      exact (ih hfirst hw).andThen_none
  | seq_second hxy _ _ ih ih' =>
    cases hf with
    | seq hfirst hsecond hfc =>
      rw [hfc]
      exact (ih hfirst hw).andThen_some (hw.trans hxy) fun rest hrest => ih' hsecond hrest
  | choice_first e' _ ih =>
    cases hf with
    | choice hfirst _ hfc =>
      rw [hfc]
      exact (ih hfirst hw).orElse_some
  | choice_second _ _ ih ih' =>
    cases hf with
    | choice hfirst hsecond hfc =>
      rw [hfc]
      exact (ih hfirst hw).orElse_none (ih' hsecond hw)
  | star hxy _ _ ih ih' =>
    cases hf with
    | star hmatch hfc =>
      have hrest := (ih hmatch hw).andThen_some (hw.trans hxy)
        fun rest hrest => ih' (.star hmatch hfc) hrest
      rw [hfc]
      exact hrest.orElse_some
  | star_stop _ ih =>
    cases hf with
    | star hmatch hfc =>
      rw [hfc]
      exact (ih hmatch hw).andThen_none.orElse_none (Verdict.shows_accept_self c)
  | not_match _ ih =>
    cases hf with
    | not hmatch hfc =>
      rw [hfc]
      exact (ih hmatch hw).negate_some
  | not_fail _ ih =>
    cases hf with
    | not hmatch hfc =>
      rw [hfc]
      exact (ih hmatch hw).negate_none

theorem congr {e : Expr σ ν} {f g : γ → Verdict γ} (h : Denotes known run e f)
    (hfg : ∀ c, g c = f c) : Denotes known run e g := by
  rwa [funext hfg]

theorem sequence {expr : ι → Expr σ ν} {recognizer : ι → Recognizer γ α} {is : List ι}
    (h : ∀ i ∈ is, Denotes known run (expr i) fun c => (recognizer i c).verdict) :
    Denotes known run (.seqAll (is.map expr))
      fun c => (Recognizer.sequence (is.map recognizer) c).verdict := by
  induction is with
  | nil => exact .empty fun c => rfl
  | cons i is ih =>
    have his := ih fun j hj => h j (List.mem_cons_of_mem i hj)
    exact .seq (h i List.mem_cons_self) his fun c => Recognizer.verdict_sequence_cons _ _ c

theorem choices {expr : ι → Expr σ ν} {recognizer : ι → Recognizer γ α} {is : List ι}
    (h : ∀ i ∈ is, Denotes known run (expr i) fun c => (recognizer i c).verdict) :
    Denotes known run (.choiceAll (is.map expr))
      fun c => (Recognizer.choice (is.map recognizer) c).verdict := by
  induction is with
  | nil => exact .not (.empty fun c => rfl) fun c => rfl
  | cons i is ih =>
    have his := ih fun j hj => h j (List.mem_cons_of_mem i hj)
    exact .choice (h i List.mem_cons_self) his fun c => Recognizer.verdict_choice_cons _ _ c

/-- A choice that falls back on a match that reads nothing. -/
theorem optional {e : Expr σ ν} {f g : γ → Verdict γ} (h : Denotes known run e f)
    (hg : ∀ c, g c = (f c).orElse (.accept c)) : Denotes known run (.choice e .empty) g :=
  .choice h (.empty fun _ => rfl) hg

end Denotes

end Peg

end Descent
