import Descent.Proofs.Defect
import Mathlib.Data.List.Induction
import Mathlib.Logic.Relation

/-!
# Invocations

A run as a machine sees it: a stack of invocations, the innermost first, each with the answers to
the calls that it has made. A step makes a call or returns an answer to the enclosing invocation.
The machine comes to the results of the parsers. Once an invocation returns a grammar error, the
machine makes no call any more, and every enclosing invocation returns that error.
-/

namespace Descent

open Strategy (Follows)

variable {γ σ δ : Type}

/-- A parser at work on a cursor, with the answers to its calls so far. -/
structure Frame (γ σ δ : Type) where
  parser : Parser σ δ
  cursor : γ
  answers : List (Answer γ σ δ)

namespace Frame

def start (p : Parser σ δ) (c : γ) : Frame γ σ δ := ⟨p, c, []⟩

def answered (f : Frame γ σ δ) (a : Answer γ σ δ) : Frame γ σ δ :=
  { f with answers := f.answers ++ [a] }

variable [Cursor γ σ] [BEq σ]

/-- What the invocation does next. -/
def move (r : Registry σ δ) (f : Frame γ σ δ) : Move γ σ δ :=
  f.parser.strategy r f.cursor f.answers

/-- What the invocation comes to. -/
def result? (r : Registry σ δ) (f : Frame γ σ δ) : Option (Answer γ σ δ) :=
  (f.parser.parse r f.cursor).result?

end Frame

/-- The invocations that have not returned, innermost first. -/
abbrev Stack (γ σ δ : Type) : Type := List (Frame γ σ δ)

namespace Stack

variable [Cursor γ σ] [BEq σ]

/-- The innermost invocation makes a call, or it returns to the one that encloses it. -/
inductive Step (r : Registry σ δ) : Stack γ σ δ → Stack γ σ δ → Prop
  | call {f : Frame γ σ δ} {fs : Stack γ σ δ} {p : Parser σ δ} {c : γ} : f.move r = .call p c →
      Step r (f :: fs) (.start p c :: f :: fs)
  | answer {f g : Frame γ σ δ} {fs : Stack γ σ δ} {a : Answer γ σ δ} : f.move r = .stop a →
      Step r (f :: g :: fs) (g.answered a :: fs)

abbrev Steps (r : Registry σ δ) : Stack γ σ δ → Stack γ σ δ → Prop :=
  Relation.ReflTransGen (Step r)

/-- A stack of the run of a parser: every invocation was called by the one that encloses it, and
has been answered what the parsers that it called come to. -/
inductive Sound (r : Registry σ δ) (p : Parser σ δ) (c : γ) : Stack γ σ δ → Prop
  | root {answers : List (Answer γ σ δ)} :
      Follows (fun q => q.parse r) (p.strategy r c) answers → Sound r p c [⟨p, c, answers⟩]
  | call {f : Frame γ σ δ} {fs : Stack γ σ δ} {q : Parser σ δ} {d : γ}
      {answers : List (Answer γ σ δ)} : Sound r p c (f :: fs) → f.move r = .call q d →
      Follows (fun q => q.parse r) (q.strategy r d) answers →
      Sound r p c (⟨q, d, answers⟩ :: f :: fs)

variable {r : Registry σ δ} {p : Parser σ δ} {c : γ} {f g : Frame γ σ δ} {fs s s' : Stack γ σ δ}

theorem Sound.follows (h : Sound r p c (f :: fs)) :
    Follows (fun q => q.parse r) (f.parser.strategy r f.cursor) f.answers := by
  cases h with
  | root hfollows => exact hfollows
  | call _ _ hfollows => exact hfollows

theorem Sound.answered {a : Answer γ σ δ} (h : Sound r p c (f :: g :: fs))
    (ha : f.result? r = some a) : Sound r p c (g.answered a :: fs) := by
  cases h with
  | call hg hmove =>
    have hfollows := Strategy.follows_snoc_iff.mpr ⟨hg.follows, _, _, hmove, ha⟩
    cases hg with
    | root => exact .root hfollows
    | call hfs hcall => exact .call hfs hcall hfollows

/-- An error goes to the enclosing invocation, which then returns it as well. -/
theorem Sound.move_answered_error {e : GrammarError} (h : Sound r p c (f :: g :: fs)) :
    (g.answered (.error e)).move r = .stop (.error e) := by
  cases h with
  | call _ hmove _ =>
    exact (Parser.strategy_strictAt r g.parser g.cursor g.answers).aborts e hmove

/-- Where the machine comes to the answers of the calls, it comes through them. -/
theorem steps_of_follows {run : Parser σ δ → Recognizer γ (Value σ δ)}
    {answers : List (Answer γ σ δ)} (fs : Stack γ σ δ)
    (hcalls : ∀ q d b fs, (run q d).result? = some b → ∃ answers,
      Steps r (.start q d :: fs) (⟨q, d, answers⟩ :: fs) ∧ q.strategy r d answers = .stop b)
    (h : Follows run (p.strategy r c) answers) :
    Steps r (.start p c :: fs) (⟨p, c, answers⟩ :: fs) := by
  induction answers using List.reverseRecOn with
  | nil => exact .refl
  | append_singleton answers b ih =>
    obtain ⟨hbefore, q, d, hcall, hb⟩ := Strategy.follows_snoc_iff.mp h
    obtain ⟨answers', hsteps, hstop⟩ := hcalls q d b (⟨p, c, answers⟩ :: fs) hb
    have hcalled : Steps r (.start p c :: fs) (.start q d :: ⟨p, c, answers⟩ :: fs) :=
      (ih hbefore).tail (.call hcall)
    exact (hcalled.trans hsteps).tail (.answer hstop)

theorem exists_steps_of_recognizer {budget : Nat} {a : Answer γ σ δ} (fs : Stack γ σ δ)
    (h : (Parser.recognizer r budget p c).result? = some a) :
    ∃ answers, Steps r (.start p c :: fs) (⟨p, c, answers⟩ :: fs) ∧
      p.strategy r c answers = .stop a := by
  induction budget generalizing p c a fs with
  | zero => cases h
  | succ budget ih =>
    obtain ⟨answers, hfollows, hstop⟩ := Parser.exists_answers_of_recognizer r h
    exact ⟨answers, steps_of_follows fs (fun _ _ _ fs hb => ih fs hb) hfollows, hstop⟩

variable [LawfulCursor γ]

/-- An invocation that returns an answer comes to that answer. -/
theorem Sound.result?_of_stop {a : Answer γ σ δ} (h : Sound r p c (f :: fs))
    (hstop : f.move r = .stop a) : f.result? r = some a :=
  (Parser.parse_result?_iff_exists_answers r).mpr ⟨f.answers, h.follows, hstop⟩

theorem Sound.step (h : Sound r p c s) (hstep : Step r s s') : Sound r p c s' := by
  cases hstep with
  | call hcall => exact .call h hcall (.nil _)
  | answer hstop => exact h.answered (h.result?_of_stop hstop)

theorem Sound.steps (h : Sound r p c s) (hsteps : Steps r s s') : Sound r p c s' := by
  induction hsteps with
  | refl => exact h
  | tail _ hstep ih => exact ih.step hstep

theorem sound_of_steps (h : Steps r [.start p c] s) : Sound r p c s :=
  Sound.steps (.root (.nil _)) h

/-- The error of an invocation is the error of all that enclose it. -/
theorem Sound.result?_error {e : GrammarError} (h : Sound r p c (f :: fs))
    (he : f.result? r = some (.error e)) :
    (∀ g ∈ fs, g.result? r = some (.error e)) ∧
      (p.parse r c).result? = some (.error e) := by
  induction fs generalizing f with
  | nil =>
    cases h
    exact ⟨nofun, he⟩
  | cons g fs ih =>
    have hanswered := h.answered he
    have hg : g.result? r = some (.error e) := hanswered.result?_of_stop h.move_answered_error
    obtain ⟨hfs, hroot⟩ := ih hanswered hg
    exact ⟨List.forall_mem_cons.mpr ⟨hg, hfs⟩, hroot⟩

/-- After an invocation has returned an error, there is nothing but returns of it. -/
theorem Sound.steps_error {e : GrammarError} (h : Sound r p c (f :: fs))
    (hstop : f.move r = .stop (.error e)) (hsteps : Steps r (f :: fs) s) :
    ∃ g gs, s = g :: gs ∧ g.move r = .stop (.error e) := by
  induction hsteps with
  | refl => exact ⟨f, fs, rfl, hstop⟩
  | tail hbefore hstep ih =>
    obtain ⟨g, gs, rfl, hg⟩ := ih
    have hsound := h.steps hbefore
    cases hstep with
    | call hcall => cases hg.symm.trans hcall
    | answer hreturn =>
      cases hg.symm.trans hreturn
      exact ⟨_, _, rfl, hsound.move_answered_error⟩

/-- The machine comes to just the results of the parsers. -/
theorem parse_result?_iff_steps {a : Answer γ σ δ} :
    (p.parse r c).result? = some a ↔
      ∃ answers, Steps r [.start p c] [⟨p, c, answers⟩] ∧ p.strategy r c answers = .stop a := by
  constructor
  · intro h
    exact exists_steps_of_recognizer [] h
  · rintro ⟨answers, hsteps, hstop⟩
    exact (sound_of_steps hsteps).result?_of_stop hstop

/-- A parser comes to an outcome when it comes to anything and no invocation comes to an error. -/
theorem exists_outcome_iff :
    (∃ o, (p.parse r c).result? = some (.ok o)) ↔ (p.parse r c).result? ≠ none ∧
      ∀ f fs e, Steps r [.start p c] (f :: fs) → f.result? r ≠ some (.error e) := by
  constructor
  · rintro ⟨o, ho⟩
    refine ⟨Option.ne_none_iff_exists'.mpr ⟨_, ho⟩, fun f fs e hsteps he => ?_⟩
    have hroot := ((sound_of_steps hsteps).result?_error he).2
    cases ho.symm.trans hroot
  · rintro ⟨hnone, herror⟩
    obtain ⟨a, ha⟩ := Option.ne_none_iff_exists'.mp hnone
    cases a with
    | error e => exact absurd ha (herror (.start p c) [] e .refl)
    | ok o => exact ⟨o, ha⟩

end Stack

namespace Parser

open Stack (Steps)

variable [Cursor γ σ] [BEq σ] [LawfulCursor γ] (r : Registry σ δ)

/-- A choice is over with the first alternative that matches, whatever the others are. -/
theorem result?_choice_of_success {before : List (Parser σ δ)} {q : Parser σ δ}
    (after : List (Parser σ δ)) {c rest : γ} {value : Value σ δ}
    (hbefore : ∀ b ∈ before, (b.parse r c).result? = some (.ok .failure))
    (hq : (q.parse r c).result? = some (.ok (.success value rest))) :
    ((choice (before ++ q :: after)).parse r c).result? =
      some (.ok (.success value rest)) := by
  rw [parse_eq_step r _ (Nat.lt_succ_self _), step, List.map_append, List.map_cons,
    Recognizer.result?_choice_append (List.forall_mem_map.mpr hbefore),
    Recognizer.result?_choice_cons, hq]

/-- The machine comes to the results of parsers. When an invocation comes to a grammar error, so
do all that enclose it, and from its return on the machine does nothing but return the error. So a
parser comes to an outcome when it comes to anything and no invocation, its own among them, comes
to an error. What stands in a choice behind the first match is not asked. -/
theorem parse_error_aborts (p : Parser σ δ) (c : γ) :
    (∀ a, (p.parse r c).result? = some a ↔
      ∃ answers, Steps r [.start p c] [⟨p, c, answers⟩] ∧ p.strategy r c answers = .stop a) ∧
    (∀ f fs e, Steps r [.start p c] (f :: fs) → f.result? r = some (.error e) →
      (∀ g ∈ fs, g.result? r = some (.error e)) ∧ (p.parse r c).result? = some (.error e)) ∧
    (∀ f fs e s, Steps r [.start p c] (f :: fs) → f.move r = .stop (.error e) →
      Steps r (f :: fs) s → ∃ g gs, s = g :: gs ∧ g.move r = .stop (.error e)) ∧
    ((∃ o, (p.parse r c).result? = some (.ok o)) ↔ (p.parse r c).result? ≠ none ∧
      ∀ f fs e, Steps r [.start p c] (f :: fs) → f.result? r ≠ some (.error e)) ∧
    (∀ before q after value rest, (∀ b ∈ before, (b.parse r c).result? = some (.ok .failure)) →
      (q.parse r c).result? = some (.ok (.success value rest)) →
      ((choice (before ++ q :: after)).parse r c).result? =
        some (.ok (.success value rest))) := by
  refine ⟨fun a => Stack.parse_result?_iff_steps, ?_, ?_, Stack.exists_outcome_iff, ?_⟩
  · intro f fs e hsteps he
    exact (Stack.sound_of_steps hsteps).result?_error he
  · intro f fs e s hsteps hstop
    exact (Stack.sound_of_steps hsteps).steps_error hstop
  · intro before q after value rest hbefore hq
    exact result?_choice_of_success r after hbefore hq

end Parser

namespace Brackets

open Stack (Steps)

/-- An opening bracket with an item behind it, or else any symbol. -/
def alternatives : Parser Char Unit :=
  .choice [.pair (.symbol '(') (.reference grammar "item"), .anySymbol]

/-- The calls that lead to the item behind the opening bracket. -/
def stack : Stack (SliceCursor Char) Char Unit :=
  [.start (.reference grammar "item") (.reading input 2),
    ⟨.pair (.symbol '(') (.reference grammar "item"), .reading input 1,
      [.ok (.success (.symbol '(') (.reading input 2))]⟩,
    .start alternatives (.reading input 1),
    .start (.optional alternatives) (.reading input 1)]

theorem steps_stack :
    Steps incomplete [.start (.optional alternatives) (.reading input 1)] stack := by
  have hsymbol : Steps incomplete [.start (.optional alternatives) (.reading input 1)]
      (.start (.symbol '(') (.reading input 1) ::
        .start (.pair (.symbol '(') (.reference grammar "item")) (.reading input 1) ::
        stack.drop 2) :=
    ((Relation.ReflTransGen.refl.tail (.call rfl)).tail (.call rfl)).tail (.call rfl)
  exact (hsymbol.tail (.answer rfl)).tail (.call rfl)

/-- Neither the choice nor the option recovers from an unbound rule, though any symbol would do and
nothing would do as well. -/
theorem alternatives_error_aborts :
    Steps incomplete [.start (.optional alternatives) (.reading input 1)] stack ∧
    (∀ f ∈ stack, f.result? incomplete = some (.error (.unboundRule "item"))) ∧
    (∀ s, Steps incomplete stack s →
      ∃ g gs, s = g :: gs ∧ g.move incomplete = .stop (.error (.unboundRule "item"))) ∧
    ((Parser.optional alternatives).parse incomplete (SliceCursor.reading input 1)).result? =
      some (.error (.unboundRule "item")) := by
  obtain ⟨-, hresult, hsteps, -, -⟩ :=
    Parser.parse_error_aborts incomplete (.optional alternatives) (SliceCursor.reading input 1)
  have hunbound : (Frame.start (.reference grammar "item") (SliceCursor.reading input 2)).result?
      incomplete = some (.error (.unboundRule "item")) := rfl
  obtain ⟨hothers, hroot⟩ := hresult _ _ _ steps_stack hunbound
  exact ⟨steps_stack, List.forall_mem_cons.mpr ⟨hunbound, hothers⟩,
    fun s => hsteps _ _ _ s steps_stack rfl, hroot⟩

end Brackets

end Descent
