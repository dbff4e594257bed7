import Descent.Cursor.Slice
import Descent.Grammar.Brackets
import Descent.Proofs.Strategy

/-!
# Logs

The invocations of a run form a tree: below an invocation are the calls that it makes, in their
order. The events of the run are those of a walk through the tree. A call leaves its events behind
whatever comes of it, so nothing is missing where an alternative or a repetition fails later on.
-/

namespace Descent

open Strategy (Makes)

variable {γ σ δ : Type}

namespace Strategy

/-- A repetition comes to what it has found, up to the call at which it has stalled. -/
theorem Makes.answer_of_stalled [Cursor γ σ] {finish : List (Value σ δ) → γ → Answer γ σ δ}
    {p : Parser σ δ} {values : List (Value σ δ)} {c d : γ} {xs : List (Exchange γ σ δ)}
    {a : Answer γ σ δ}
    (h : Makes (repeatedly finish p values c) xs)
    (hstop : repeatedly finish p values c (xs.map Exchange.answer) = .stop a)
    (hd : Exchange.stalledAt? xs = some d) : a = finish (values ++ Exchange.collected xs) d := by
  induction xs generalizing values c with
  | nil => cases hd
  | cons x xs ih =>
    obtain ⟨rfl, rfl, rfl | ⟨value, rest, hanswer, hpos, hxs⟩⟩ := h.repeatedly_cons
    · -- No call follows this one, so it is the one at which the repetition has stalled.
      obtain ⟨value, rest, hanswer, hpos, rfl⟩ := Exchange.eq_of_stalledAt?_singleton hd
      simp only [List.map_cons, hanswer, repeatedly, if_pos hpos] at hstop
      cases hstop
      simp [Exchange.collected]
    · obtain ⟨p, c, _⟩ := x
      dsimp only at hanswer hpos
      subst hanswer
      simp only [List.map_cons, repeatedly, if_neg hpos] at hstop
      have hstall := Exchange.stall_cons Prod.mk p value hpos xs
      rw [hd, Option.map_some, eq_comm, Option.map_eq_some_iff] at hstall
      obtain ⟨d', hd', heq⟩ := hstall
      obtain ⟨rfl, hcollected⟩ := Prod.mk.inj heq
      rw [← hcollected, ih hxs hstop hd', List.append_assoc, List.singleton_append]

end Strategy

/-- An invocation with its answer, and the calls that it makes. -/
inductive CallTree (γ σ δ : Type) where
  | node (root : Exchange γ σ δ) (calls : List (CallTree γ σ δ))

namespace CallTree

def root : CallTree γ σ δ → Exchange γ σ δ
  | node x _ => x

/-- The calls of the invocation at the root, with their answers. -/
def exchanges : CallTree γ σ δ → List (Exchange γ σ δ)
  | node _ calls => calls.map root

/-- A strategy goes one way, as long as a parser on a cursor comes to one thing. -/
theorem calls_unique {S : Strategy γ σ δ} {a a' : Answer γ σ δ}
    {calls calls' : List (CallTree γ σ δ)}
    (hsame : ∀ t ∈ calls, ∀ t' ∈ calls', t.root.parser = t'.root.parser →
      t.root.cursor = t'.root.cursor → t = t')
    (h : Makes S (calls.map root)) (hstop : S ((calls.map root).map Exchange.answer) = .stop a)
    (h' : Makes S (calls'.map root))
    (hstop' : S ((calls'.map root).map Exchange.answer) = .stop a') : calls = calls' := by
  induction calls generalizing S calls' with
  | nil =>
    cases calls' with
    | nil => rfl
    | cons t' calls' =>
      cases h' with
      | cons hcall' _ => cases hstop.symm.trans hcall'
  | cons t calls ih =>
    cases h with
    | cons hcall h =>
      cases calls' with
      | nil => cases hstop'.symm.trans hcall
      | cons t' calls' =>
        cases h' with
        | cons hcall' h' =>
          have hmove := hcall.symm.trans hcall'
          injection hmove with hparser hcursor
          obtain rfl := hsame t List.mem_cons_self t' List.mem_cons_self hparser hcursor
          rw [ih (fun s hs s' hs' => hsame s (List.mem_cons_of_mem _ hs) s'
            (List.mem_cons_of_mem _ hs')) h hstop h' hstop']

variable [Cursor γ σ]

mutual

/-- The events of an invocation: one of its own at the start, those of its calls, and one of its own
at the end, if there are any. -/
def log (r : Registry σ δ) : CallTree γ σ δ → List Event
  | node x calls =>
    x.parser.opening r x.cursor ++ logOfAll r calls ++ x.parser.closing (calls.map root)

def logOfAll (r : Registry σ δ) : List (CallTree γ σ δ) → List Event
  | [] => []
  | t :: ts => t.log r ++ logOfAll r ts

end

variable [BEq σ] {r : Registry σ δ}

/-- Every invocation makes the calls of its strategy, and has the answer that the strategy comes
to. -/
inductive Sound (r : Registry σ δ) : CallTree γ σ δ → Prop
  | node {x : Exchange γ σ δ} {calls : List (CallTree γ σ δ)} :
      Makes (x.parser.strategy r x.cursor) (calls.map root) →
      x.parser.strategy r x.cursor ((calls.map root).map Exchange.answer) = .stop x.answer →
      (∀ t ∈ calls, Sound r t) → Sound r (.node x calls)

/-- Trees for the calls of an invocation, from a tree for each of them. -/
theorem exists_calls {xs : List (Exchange γ σ δ)} {log' : Exchange γ σ δ → List Event}
    (h : ∀ x ∈ xs, ∃ t : CallTree γ σ δ, t.Sound r ∧ t.root = x ∧ t.log r = log' x) :
    ∃ calls : List (CallTree γ σ δ),
      (∀ t ∈ calls, t.Sound r) ∧ calls.map root = xs ∧ logOfAll r calls = xs.flatMap log' := by
  induction xs with
  | nil => exact ⟨[], nofun, rfl, rfl⟩
  | cons x xs ih =>
    obtain ⟨⟨t, ht, hroot, hlog⟩, hxs⟩ := List.forall_mem_cons.mp h
    obtain ⟨calls, hcalls, hroots, hlogs⟩ := ih hxs
    refine ⟨t :: calls, List.forall_mem_cons.mpr ⟨ht, hcalls⟩, ?_, ?_⟩
    · rw [List.map_cons, hroot, hroots]
    · rw [logOfAll, hlog, hlogs, List.flatMap_cons]

theorem exists_sound_of_recognizer {budget : Nat} {x : Exchange γ σ δ}
    (h : (Parser.recognizer r budget x.parser x.cursor).result? = some x.answer) :
    ∃ t : CallTree γ σ δ, t.Sound r ∧ t.root = x ∧
      t.log r = (Parser.recognizer r budget x.parser x.cursor).events := by
  induction budget generalizing x with
  | zero => cases h
  | succ budget ih =>
    have hrealizes := Parser.step_realizes r budget (Parser.recognizer r budget) x.parser x.cursor
    obtain ⟨xs, hmakes, hstop, hruns, hevents⟩ := hrealizes.exists_exchanges h
    obtain ⟨calls, hcalls, rfl, hlogs⟩ := exists_calls fun x hx => ih (hruns x hx)
    refine ⟨.node x calls, .node hmakes hstop hcalls, rfl, ?_⟩
    rw [log, hlogs]
    exact hevents.symm

/-- A parser on a cursor has at most one tree. -/
theorem Sound.unique {t t' : CallTree γ σ δ} (h : t.Sound r) (h' : t'.Sound r)
    (hparser : t.root.parser = t'.root.parser) (hcursor : t.root.cursor = t'.root.cursor) :
    t = t' := by
  induction h generalizing t' with
  | @node x calls hmakes hstop hcalls ih =>
    cases h' with
    | @node x' calls' hmakes' hstop' hcalls' =>
      obtain ⟨p, c, a⟩ := x
      obtain ⟨p', c', a'⟩ := x'
      dsimp only [root] at hparser hcursor hmakes hstop hmakes' hstop'
      subst hparser hcursor
      obtain rfl := calls_unique (fun t ht t' ht' => ih t ht (hcalls' t' ht')) hmakes hstop
        hmakes' hstop'
      injection hstop.symm.trans hstop' with hanswer
      rw [hanswer]

/-- A repetition that has stalled comes to the cursor that it has stalled at, with the values of all
calls before, if these are enough. -/
theorem Sound.answer_of_stalled {t : CallTree γ σ δ} (h : t.Sound r) {p : Parser σ δ} {min : Nat}
    (hp : t.root.parser = .many p min) {d : γ} (hd : Exchange.stalledAt? t.exchanges = some d) :
    t.root.answer = .ok (if min ≤ (Exchange.collected t.exchanges).length then
      .success (.list (Exchange.collected t.exchanges)) d else .failure) := by
  cases h with
  | @node x calls hmakes hstop _ =>
    obtain ⟨q, c, a⟩ := x
    dsimp only [root] at hp hmakes hstop
    subst hp
    exact hmakes.answer_of_stalled hstop hd

variable [LawfulCursor γ]

theorem Sound.result? {t : CallTree γ σ δ} (h : t.Sound r) :
    (t.root.parser.parse r t.root.cursor).result? = some t.root.answer := by
  induction h with
  | @node x calls hmakes hstop _ ih =>
    refine (Parser.parse_result?_iff_exists_answers r).mpr ⟨_, hmakes.follows ?_, hstop⟩
    exact List.forall_mem_map.mpr ih

/-- A run that finishes has a tree, and the events are those of the walk through it. -/
theorem parse_eq_finished_iff {p : Parser σ δ} {c : γ} {events : List Event} {a : Answer γ σ δ} :
    p.parse r c = .finished events a ↔
      ∃ t : CallTree γ σ δ, t.Sound r ∧ t.root = ⟨p, c, a⟩ ∧ t.log r = events := by
  constructor
  · intro h
    have hresult : (Parser.recognizer r (Parser.budget r p c) p c).result? = some a := by
      rw [← Parser.parse, h, Run.result?_finished]
    obtain ⟨t, ht, hroot, hlog⟩ := exists_sound_of_recognizer (x := ⟨p, c, a⟩) hresult
    refine ⟨t, ht, hroot, ?_⟩
    rw [hlog, ← Parser.parse, h, Run.events]
  · rintro ⟨t, ht, hroot, rfl⟩
    have hresult := ht.result?
    rw [hroot] at hresult
    obtain ⟨t', ht', hroot', hlog⟩ := exists_sound_of_recognizer hresult
    obtain rfl := ht.unique ht' (by rw [hroot, hroot']) (by rw [hroot, hroot'])
    obtain ⟨events, hevents⟩ := Run.result?_eq_some_iff.mp hresult
    rw [hlog, ← Parser.parse, hevents, Run.events]

end CallTree

theorem Run.after_eq_finished_iff {α : Type} {earlier events : List Event} {x : Run α}
    {a : Except GrammarError α} :
    x.after earlier = .finished events a ↔
      ∃ later, x = .finished later a ∧ events = earlier ++ later := by
  cases x <;> simp [eq_comm, and_comm]

namespace Registry

variable [Cursor γ σ] [BEq σ] (r : Registry σ δ) (g : GrammarId) (name : String)

theorem parse_of_resolve_error {e : GrammarError} (h : r.resolve g name = .error e) (c : γ) :
    r.parse g name c = .finished [.parsing name (Cursor.position c)] (.error e) := by
  simp [parse, h, Run.ofExcept, Run.note]

theorem parse_of_resolve_ok {body : Parser σ δ} (h : r.resolve g name = .ok body) (c : γ) :
    r.parse g name c = (body.parse r c).after [.parsing name (Cursor.position c)] := by
  simp [parse, h, Run.ofExcept, Run.note]

theorem parse_eq_finished_iff [LawfulCursor γ] {c : γ} {events : List Event} {a : Answer γ σ δ} :
    r.parse g name c = .finished events a ↔
      (∃ e, r.resolve g name = .error e ∧ a = .error e ∧
        events = [.parsing name (Cursor.position c)]) ∨
      ∃ body, ∃ t : CallTree γ σ δ, r.resolve g name = .ok body ∧ t.Sound r ∧
        t.root = ⟨body, c, a⟩ ∧ events = .parsing name (Cursor.position c) :: t.log r := by
  constructor
  · intro h
    cases hresolve : r.resolve g name with
    | error e =>
      rw [parse_of_resolve_error r g name hresolve] at h
      cases h
      exact .inl ⟨e, rfl, rfl, rfl⟩
    | ok body =>
      rw [parse_of_resolve_ok r g name hresolve, Run.after_eq_finished_iff] at h
      obtain ⟨later, hlater, rfl⟩ := h
      obtain ⟨t, ht, hroot, rfl⟩ := CallTree.parse_eq_finished_iff.mp hlater
      exact .inr ⟨body, t, rfl, ht, hroot, rfl⟩
  · rintro (⟨e, hresolve, rfl, rfl⟩ | ⟨body, t, hresolve, ht, hroot, rfl⟩)
    · exact parse_of_resolve_error r g name hresolve c
    · have hbody := CallTree.parse_eq_finished_iff.mpr ⟨t, ht, hroot, rfl⟩
      rw [parse_of_resolve_ok r g name hresolve, hbody, Run.after_finished, List.singleton_append]

end Registry

namespace Parser

variable [Cursor γ σ] [BEq σ] [LawfulCursor γ]

/-- A run finishes just when there is a tree of its invocations, and its events are those of the
walk through the tree. There is no more than one tree, and when a repetition in it reports that it
has stalled, it has come to the cursor and to as many values as it reports, unless it wants more. A
grammar reports the name and the position before it looks for the rule. -/
theorem parse_log (r : Registry σ δ) (p : Parser σ δ) (c : γ) :
    (∀ events a, p.parse r c = .finished events a ↔
      ∃ t : CallTree γ σ δ, t.Sound r ∧ t.root = ⟨p, c, a⟩ ∧ t.log r = events) ∧
    (∀ t t' : CallTree γ σ δ, t.Sound r → t'.Sound r → t.root.parser = t'.root.parser →
      t.root.cursor = t'.root.cursor → t = t') ∧
    (∀ (t : CallTree γ σ δ) q min d, t.Sound r → t.root.parser = .many q min →
      Exchange.stalledAt? t.exchanges = some d →
      t.root.answer = .ok (if min ≤ (Exchange.collected t.exchanges).length then
        .success (.list (Exchange.collected t.exchanges)) d else .failure)) ∧
    (∀ g name events a, r.parse g name c = .finished events a ↔
      (∃ e, r.resolve g name = .error e ∧ a = .error e ∧
        events = [.parsing name (Cursor.position c)]) ∨
      ∃ body, ∃ t : CallTree γ σ δ, r.resolve g name = .ok body ∧ t.Sound r ∧
        t.root = ⟨body, c, a⟩ ∧ events = .parsing name (Cursor.position c) :: t.log r) := by
  refine ⟨fun events a => CallTree.parse_eq_finished_iff,
    fun t t' ht ht' => ht.unique ht', fun t q min d ht hq => ht.answer_of_stalled hq, ?_⟩
  exact fun g name events a => Registry.parse_eq_finished_iff r g name

end Parser

namespace Brackets

/-- Three items, which may be missing, or else anything before what nothing is bound to. -/
def attempts : Parser Char Unit :=
  .choice
    [.many (.optional (.reference grammar "item")) 3,
      .pair .anySymbol (.reference grammar "nothing")]

/-- The repetition stalls at the end of the input, one value short, and its events are there though
the next alternative is tried. There is no event for the name that is not bound. -/
theorem attempts_log :
    attempts.parse rules (SliceCursor.ofArray #['x', 'x']) =
      .finished [.resolved "item" 0, .resolved "item" 1, .resolved "item" 2, .stalled 2 2]
        (.error (.unboundRule "nothing")) ∧
    (∃ t : CallTree (SliceCursor Char) Char Unit, t.Sound rules ∧
      t.root = ⟨attempts, .ofArray #['x', 'x'], .error (.unboundRule "nothing")⟩ ∧
      t.log rules =
        [.resolved "item" 0, .resolved "item" 1, .resolved "item" 2, .stalled 2 2]) ∧
    rules.parse grammar "nothing" (SliceCursor.ofArray #['x', 'x']) =
      .finished [.parsing "nothing" 0] (.error (.unboundRule "nothing")) := by
  obtain ⟨hfinished, -, -, hgrammar⟩ :=
    Parser.parse_log rules attempts (SliceCursor.ofArray #['x', 'x'])
  have hrun : attempts.parse rules (SliceCursor.ofArray #['x', 'x']) =
      .finished [.resolved "item" 0, .resolved "item" 1, .resolved "item" 2, .stalled 2 2]
        (.error (.unboundRule "nothing")) := rfl
  exact ⟨hrun, (hfinished _ _).mp hrun, (hgrammar _ _ _ _).mpr (.inl ⟨_, rfl, rfl, rfl⟩)⟩

end Brackets

end Descent
