import Descent.Proofs.Result

/-!
# The calls that a parser makes

While a parser runs, it calls other parsers, one after another, and what it does next depends on
their answers. A strategy makes this explicit: from the answers so far it makes one more call or
stops. Every parser has a strategy, and whatever it is that answers the calls, the parser comes to
an answer exactly when its strategy does, and to the same one. What it reports are the events of its
calls, one call after another, between an event of its own at the start and one at the end, if any.
-/

namespace Descent

variable {γ σ δ : Type}

/-- What a run comes to. -/
abbrev Answer (γ σ δ : Type) : Type := Except GrammarError (Outcome γ (Value σ δ))

/-- One more call, or the end. -/
inductive Move (γ σ δ : Type) where
  | call (parser : Parser σ δ) (cursor : γ)
  | stop (answer : Answer γ σ δ)

/-- A call and its answer. -/
structure Exchange (γ σ δ : Type) where
  parser : Parser σ δ
  cursor : γ
  answer : Answer γ σ δ

/-- What is done after the answers of the calls so far, first call first. -/
abbrev Strategy (γ σ δ : Type) : Type := List (Answer γ σ δ) → Move γ σ δ

namespace Strategy

def stop (answer : Answer γ σ δ) : Strategy γ σ δ := fun _ => .stop answer

/-- Makes a call and goes on from its outcome; an error is the end. -/
def call (p : Parser σ δ) (c : γ) (next : Outcome γ (Value σ δ) → Strategy γ σ δ) :
    Strategy γ σ δ
  | [] => .call p c
  | .error e :: _ => .stop (.error e)
  | .ok o :: answers => next o answers

/-- Calls the parsers one after another, each on the rest of the one before. -/
def inTurn (finish : List (Value σ δ) → γ → Answer γ σ δ) :
    List (Parser σ δ) → List (Value σ δ) → γ → Strategy γ σ δ
  | [], values, c => stop (finish values c)
  | p :: ps, values, c => call p c fun
    | .success value rest => inTurn finish ps (values ++ [value]) rest
    | .failure => stop (.ok .failure)

/-- Calls the parsers on the same cursor, up to the first that matches. -/
def firstOf : List (Parser σ δ) → γ → Strategy γ σ δ
  | [], _ => stop (.ok .failure)
  | p :: ps, c => call p c fun
    | .success value rest => stop (.ok (.success value rest))
    | .failure => firstOf ps c

/-- Calls the parser again and again, as long as it matches and moves the position. -/
def repeatedly [Cursor γ σ] (finish : List (Value σ δ) → γ → Answer γ σ δ) (p : Parser σ δ) :
    List (Value σ δ) → γ → Strategy γ σ δ
  | _, c, [] => .call p c
  | _, _, .error e :: _ => .stop (.error e)
  | values, c, .ok .failure :: _ => .stop (finish values c)
  | values, c, .ok (.success value rest) :: answers =>
    if Cursor.position rest = Cursor.position c then .stop (finish values c)
    else repeatedly finish p (values ++ [value]) rest answers

theorem repeatedly_eq_call [Cursor γ σ] (finish : List (Value σ δ) → γ → Answer γ σ δ)
    (p : Parser σ δ) (values : List (Value σ δ)) (c : γ) :
    repeatedly finish p values c = call p c fun
      | .success value rest =>
        if Cursor.position rest = Cursor.position c then stop (finish values c)
        else repeatedly finish p (values ++ [value]) rest
      | .failure => stop (finish values c) := by
  funext answers
  rcases answers with _ | ⟨_ | _ | _, answers⟩
  case cons.ok.success value rest =>
    simp only [repeatedly, call]
    split <;> rfl
  all_goals rfl

end Strategy

/-- The outcome of reading one symbol, where there is one to be read. -/
def Outcome.ofSymbol? [Cursor γ σ] (c : γ) : Option σ → Outcome γ (Value σ δ)
  | some s => .success (.symbol s) (Cursor.advance c)
  | none => .failure

/-- The strategy of a parser on a cursor. -/
def Parser.strategy [Cursor γ σ] [BEq σ] (r : Registry σ δ) (p : Parser σ δ) (c : γ) :
    Strategy γ σ δ :=
  match p with
  | oneOf symbols =>
    .stop (.ok (.ofSymbol? c ((Cursor.current c).filter (Recognizer.accepts symbols))))
  | anySymbol => .stop (.ok (.ofSymbol? c (Cursor.current c)))
  | endOfInput value => .stop (.ok (if Cursor.isExhausted c then .success value c else .failure))
  | sequence ps => .inTurn (fun values rest => .ok (.success (.list values) rest)) ps [] c
  | select ps index =>
    .inTurn (fun values rest =>
      match values[index]? with
      | some value => .ok (.success value rest)
      | none => .error (.noSuchElement index ps.length)) ps [] c
  | pair p q => .call p c fun
    | .success first rest => .call q rest fun o => .stop (.ok (o.map (.pair first)))
    | .failure => .stop (.ok .failure)
  | choice ps => .firstOf ps c
  | optional p => .call p c fun
    | .success value rest => .stop (.ok (.success (.present value) rest))
    | .failure => .stop (.ok (.success .absent c))
  | optionalOr p sentinel => .call p c fun
    | .success value rest => .stop (.ok (.success value rest))
    | .failure => .stop (.ok (.success sentinel c))
  | many p min =>
    .repeatedly (fun values rest =>
      .ok (if min ≤ values.length then .success (.list values) rest else .failure)) p [] c
  | action p f => .call p c fun o => .stop (.ok (o.map f))
  | reference g name =>
    match r.resolve g name with
    | .error e => .stop (.error e)
    | .ok body => .call body c fun o => .stop (.ok o)

namespace Exchange

def value? (x : Exchange γ σ δ) : Option (Value σ δ) := x.answer.toOption.bind Outcome.value?

/-- The cursor of the last call, if that matched and left the position where it was. -/
def stalledAt? [Cursor γ σ] (xs : List (Exchange γ σ δ)) : Option γ :=
  match xs.getLast? with
  | some ⟨_, c, .ok (.success _ rest)⟩ =>
    if Cursor.position rest = Cursor.position c then some c else none
  | _ => none

/-- The values of all calls but the last. -/
def collected (xs : List (Exchange γ σ δ)) : List (Value σ δ) := xs.dropLast.filterMap value?

theorem eq_of_stalledAt?_singleton [Cursor γ σ] {x : Exchange γ σ δ} {d : γ}
    (h : stalledAt? [x] = some d) :
    ∃ value rest, x.answer = .ok (.success value rest) ∧
      Cursor.position rest = Cursor.position x.cursor ∧ x.cursor = d := by
  obtain ⟨p, c, _ | ⟨value, rest⟩ | _⟩ := x
  case ok.success =>
    by_cases hpos : Cursor.position rest = Cursor.position c
    · simp only [stalledAt?, List.getLast?_singleton, if_pos hpos] at h
      exact ⟨value, rest, rfl, hpos, Option.some.inj h⟩
    · simp only [stalledAt?, List.getLast?_singleton, if_neg hpos] at h
      cases h
  all_goals cases h

/-- A call that moved the position is not the one that stalled, and counts as a value. -/
theorem stall_cons [Cursor γ σ] {α : Type} (f : γ → List (Value σ δ) → α) (p : Parser σ δ)
    (value : Value σ δ) {c rest : γ} (h : Cursor.position rest ≠ Cursor.position c)
    (xs : List (Exchange γ σ δ)) :
    (stalledAt? (⟨p, c, .ok (.success value rest)⟩ :: xs)).map
        (fun d => f d (collected (⟨p, c, .ok (.success value rest)⟩ :: xs))) =
      (stalledAt? xs).map fun d => f d (value :: collected xs) := by
  cases xs with
  | nil => simp [stalledAt?, h]
  | cons x xs => rfl

end Exchange

/-- The event of an invocation before its calls: a reference that is bound reports its name. -/
def Parser.opening [Cursor γ σ] (r : Registry σ δ) (p : Parser σ δ) (c : γ) : List Event :=
  match p with
  | reference g name => if r.isBound g name then [.resolved name (Cursor.position c)] else []
  | _ => []

/-- The event of an invocation after its calls: a repetition that has stalled reports where it is,
and how many values it has. -/
def Parser.closing [Cursor γ σ] (p : Parser σ δ) (xs : List (Exchange γ σ δ)) : List Event :=
  match p with
  | many _ _ =>
    ((Exchange.stalledAt? xs).map fun c =>
      Event.stalled (Cursor.position c) (Exchange.collected xs).length).toList
  | _ => []

namespace Strategy

/-- The strategy makes the calls, each after the answers to those before. -/
inductive Makes : Strategy γ σ δ → List (Exchange γ σ δ) → Prop
  | nil (S : Strategy γ σ δ) : Makes S []
  | cons {S : Strategy γ σ δ} {x : Exchange γ σ δ} {xs : List (Exchange γ σ δ)} :
      S [] = .call x.parser x.cursor → Makes (fun later => S (x.answer :: later)) xs →
      Makes S (x :: xs)

/-- The answers are those that `run` gives to the calls, one after another. -/
inductive Follows (run : Parser σ δ → Recognizer γ (Value σ δ)) :
    Strategy γ σ δ → List (Answer γ σ δ) → Prop
  | nil (S : Strategy γ σ δ) : Follows run S []
  | cons {S : Strategy γ σ δ} {p : Parser σ δ} {c : γ} {a : Answer γ σ δ}
      {answers : List (Answer γ σ δ)} :
      S [] = .call p c → (run p c).result? = some a →
      Follows run (fun later => S (a :: later)) answers → Follows run S (a :: answers)

variable {run : Parser σ δ → Recognizer γ (Value σ δ)} {S : Strategy γ σ δ}
variable {answers : List (Answer γ σ δ)} {a : Answer γ σ δ} {p : Parser σ δ} {c : γ}

/-- The last answer is that to the call made after the answers before it. -/
theorem follows_snoc_iff : Follows run S (answers ++ [a]) ↔
    Follows run S answers ∧ ∃ p c, S answers = .call p c ∧ (run p c).result? = some a := by
  induction answers generalizing S with
  | nil =>
    constructor
    · rintro (_ | ⟨hcall, ha, _⟩)
      exact ⟨.nil S, _, _, hcall, ha⟩
    · rintro ⟨-, p, c, hcall, ha⟩
      exact .cons hcall ha (.nil _)
  | cons b answers ih =>
    constructor
    · rintro (_ | ⟨hcall, hb, hlater⟩)
      obtain ⟨hanswers, hlast⟩ := ih.mp hlater
      exact ⟨.cons hcall hb hanswers, hlast⟩
    · rintro ⟨_ | ⟨hcall, hb, hanswers⟩, hlast⟩
      exact .cons hcall hb (ih.mpr ⟨hanswers, hlast⟩)

theorem Follows.exists_call (h : Follows run S answers) (ha : a ∈ answers) :
    ∃ before q d, S before = .call q d ∧ (run q d).result? = some a := by
  induction h with
  | nil S => simp at ha
  | @cons S q d b answers hcall hb _ ih =>
    rcases List.mem_cons.mp ha with rfl | ha
    · exact ⟨[], q, d, hcall, hb⟩
    · obtain ⟨before, q', d', hcall', ha'⟩ := ih ha
      exact ⟨b :: before, q', d', hcall', ha'⟩

/-- Answers to the calls of one strategy are answers to the calls of another one that calls, after
the same answers, for something with the same answer. -/
theorem Follows.transfer {run' : Parser σ δ → Recognizer γ (Value σ δ)} {S' : Strategy γ σ δ}
    (h : Follows run S answers)
    (hcalls : ∀ before q d b, Follows run S before → S before = .call q d →
      (run q d).result? = some b → ∃ q', S' before = .call q' d ∧ (run' q' d).result? = some b) :
    Follows run' S' answers := by
  induction h generalizing S' with
  | nil => exact .nil S'
  | @cons S q d b answers hcall hb _ ih =>
    obtain ⟨q', hcall', hb'⟩ := hcalls [] q d b (.nil S) hcall hb
    refine .cons hcall' hb' (ih ?_)
    intro before q d b' hbefore
    exact hcalls (b :: before) q d b' (.cons hcall hb hbefore)

theorem Makes.eq_nil {xs : List (Exchange γ σ δ)} (h : Makes S xs) (hstop : S [] = .stop a) :
    xs = [] := by
  cases h with
  | nil => rfl
  | cons hcall _ => cases hstop.symm.trans hcall

/-- After its first call a repetition is over, or it goes on behind a match that moved the
position. -/
theorem Makes.repeatedly_cons [Cursor γ σ] {finish : List (Value σ δ) → γ → Answer γ σ δ}
    {values : List (Value σ δ)} {x : Exchange γ σ δ} {xs : List (Exchange γ σ δ)}
    (h : Makes (repeatedly finish p values c) (x :: xs)) :
    x.parser = p ∧ x.cursor = c ∧ (xs = [] ∨
      ∃ value rest, x.answer = .ok (.success value rest) ∧
        Cursor.position rest ≠ Cursor.position c ∧
        Makes (repeatedly finish p (values ++ [value]) rest) xs) := by
  obtain ⟨q, d, a⟩ := x
  cases h with
  | cons hcall h =>
    injection hcall with hp hc
    refine ⟨hp.symm, hc.symm, ?_⟩
    rcases a with e | ⟨value, rest⟩ | _
    case error => exact .inl (h.eq_nil rfl)
    case ok.failure => exact .inl (h.eq_nil rfl)
    case ok.success =>
      by_cases hpos : Cursor.position rest = Cursor.position c
      · simp only [repeatedly, if_pos hpos] at h
        exact .inl (h.eq_nil rfl)
      · simp only [repeatedly, if_neg hpos] at h
        exact .inr ⟨value, rest, rfl, hpos, h⟩

/-- With the answers of `run`, the calls that a strategy makes are answers that it follows. -/
theorem Makes.follows {xs : List (Exchange γ σ δ)} (h : Makes S xs)
    (hrun : ∀ x ∈ xs, (run x.parser x.cursor).result? = some x.answer) :
    Follows run S (xs.map Exchange.answer) := by
  induction h with
  | nil S => exact .nil S
  | cons hcall _ ih =>
    obtain ⟨hx, hxs⟩ := List.forall_mem_cons.mp hrun
    exact .cons hcall hx (ih hxs)

/-- The run comes to the answer that the strategy comes to, if it does so within the calls that
the run is allowed. It sends the events of the calls in their order, between those of `opening` and
of `closing`. -/
structure Realizes (run : Parser σ δ → Recognizer γ (Value σ δ)) (calls : Nat)
    (opening : List Event) (closing : List (Exchange γ σ δ) → List Event)
    (x : Run (Outcome γ (Value σ δ))) (S : Strategy γ σ δ) : Prop where
  exists_exchanges {a : Answer γ σ δ} : x.result? = some a →
    ∃ xs, Makes S xs ∧ S (xs.map Exchange.answer) = .stop a ∧
      (∀ x ∈ xs, (run x.parser x.cursor).result? = some x.answer) ∧
      x.events = opening ++ xs.flatMap (fun x => (run x.parser x.cursor).events) ++ closing xs
  result_eq {answers : List (Answer γ σ δ)} {a : Answer γ σ δ} : Follows run S answers →
    S answers = .stop a → answers.length ≤ calls → x.result? = some a

/-- The events at the end of an invocation that reports nothing there. -/
def quiet (_ : List (Exchange γ σ δ)) : List Event := []

namespace Realizes

variable {calls : Nat} {opening : List Event} {closing : List (Exchange γ σ δ) → List Event}
variable {x : Run (Outcome γ (Value σ δ))}

theorem exists_answers (h : Realizes run calls opening closing x S) (hx : x.result? = some a) :
    ∃ answers, Follows run S answers ∧ S answers = .stop a := by
  obtain ⟨xs, hmakes, hstop, hruns, -⟩ := h.exists_exchanges hx
  exact ⟨_, hmakes.follows hruns, hstop⟩

theorem stop (h : x = .finished (closing []) a) :
    Realizes run calls [] closing x (.stop a) where
  exists_exchanges := by
    intro b hx
    subst h
    cases hx
    exact ⟨[], .nil _, rfl, nofun, rfl⟩
  result_eq _ hstop _ := by
    cases hstop
    rw [h, Run.result?_finished]

theorem call {k : Outcome γ (Value σ δ) → Run (Outcome γ (Value σ δ))}
    {next : Outcome γ (Value σ δ) → Strategy γ σ δ}
    (hclosing : ∀ e, closing [⟨p, c, .error e⟩] = [])
    (h : ∀ o, Realizes run (calls - 1) [] (fun xs => closing (⟨p, c, .ok o⟩ :: xs)) (k o)
      (next o)) :
    Realizes run calls [] closing (run p c >>= k) (.call p c next) where
  exists_exchanges := by
    intro a hx
    rw [Run.result?_bind] at hx
    rcases hrun : run p c with _ | ⟨log, e | o⟩
    · simp [hrun] at hx
    · rw [hrun] at hx
      cases hx
      refine ⟨[⟨p, c, .error e⟩], .cons rfl (.nil _), rfl, ?_, ?_⟩
      · simp [hrun]
      · simp [hrun, hclosing, Run.events]
    · rw [hrun] at hx
      obtain ⟨xs, hmakes, hstop, hruns, hevents⟩ := (h o).exists_exchanges hx
      refine ⟨⟨p, c, .ok o⟩ :: xs, .cons rfl hmakes, hstop, ?_, ?_⟩
      · exact List.forall_mem_cons.mpr ⟨by rw [hrun, Run.result?_finished], hruns⟩
      · obtain ⟨later, hk⟩ := Run.result?_eq_some_iff.mp hx
        rw [hk] at hevents
        simpa [hrun, hk, Run.events] using hevents
  result_eq := by
    intro answers a hfollows hstop hlength
    rw [Run.result?_bind]
    cases hfollows with
    | nil => cases hstop
    | @cons _ _ _ b later hcall hb hfollows =>
      cases hcall
      rw [hb]
      cases b with
      | error e =>
        cases hstop
        rfl
      | ok o =>
        refine (h o).result_eq hfollows hstop ?_
        rw [List.length_cons] at hlength
        omega

/-- A run that is allowed no calls comes to nothing, as long as the strategy makes one. -/
theorem unfinished (next : Outcome γ (Value σ δ) → Strategy γ σ δ) :
    Realizes run 0 [] closing .unfinished (.call p c next) where
  exists_exchanges hx := by cases hx
  result_eq _ hstop hlength := by
    rw [List.length_eq_zero_iff.mp (Nat.le_zero.mp hlength)] at hstop
    cases hstop

theorem after (earlier : List Event) (h : Realizes run calls [] closing x S) :
    Realizes run calls earlier closing (x.after earlier) S where
  exists_exchanges := by
    intro a hx
    rw [Run.result?_after] at hx
    obtain ⟨xs, hmakes, hstop, hruns, hevents⟩ := h.exists_exchanges hx
    obtain ⟨events, rfl⟩ := Run.result?_eq_some_iff.mp hx
    refine ⟨xs, hmakes, hstop, hruns, ?_⟩
    rw [Run.events] at hevents
    simp [hevents, Run.events]
  result_eq hfollows hstop hlength := by
    rw [Run.result?_after]
    exact h.result_eq hfollows hstop hlength

theorem inTurn (finish : List (Value σ δ) → γ → Answer γ σ δ) (calls : Nat)
    (ps : List (Parser σ δ)) (values : List (Value σ δ)) (c : γ) :
    Realizes run calls [] quiet
      (Recognizer.andThen (Recognizer.sequence (ps.map run))
        (fun tail rest => .ofExcept (finish (values ++ tail) rest)) c)
      (.inTurn finish ps values c) := by
  induction ps generalizing values c calls with
  | nil =>
    apply stop
    simp [Recognizer.andThen, Recognizer.sequence, Recognizer.succeed, Run.ofExcept, quiet]
  | cons p ps ih =>
    rw [List.map_cons, Recognizer.sequence, Recognizer.andThen_andThen]
    apply call fun _ => rfl
    intro o
    cases o with
    | success value rest =>
      have htail := ih (calls - 1) (values ++ [value]) rest
      simp only [List.append_assoc, List.singleton_append] at htail
      dsimp only
      rwa [Recognizer.action_andThen]
    | failure => exact stop rfl

theorem firstOf (calls : Nat) (ps : List (Parser σ δ)) (c : γ) :
    Realizes run calls [] quiet (Recognizer.choice (ps.map run) c) (.firstOf ps c) := by
  induction ps generalizing calls with
  | nil => exact stop rfl
  | cons p ps ih =>
    apply call fun _ => rfl
    intro o
    cases o with
    | success value rest => exact stop rfl
    | failure => exact ih (calls - 1)

theorem repeatedly [Cursor γ σ] (finish : List (Value σ δ) → γ → Answer γ σ δ) (budget : Nat)
    (values : List (Value σ δ)) (c : γ) :
    Realizes run budget []
      (fun xs => ((Exchange.stalledAt? xs).map fun d =>
        Event.stalled (Cursor.position d) (values ++ Exchange.collected xs).length).toList)
      (Recognizer.row (run p) budget values.length c >>= fun row =>
        .ofExcept (finish (values ++ row.1) row.2))
      (.repeatedly finish p values c) := by
  induction budget generalizing values c with
  | zero =>
    rw [Recognizer.row, repeatedly_eq_call]
    exact .unfinished _
  | succ budget ih =>
    rw [Recognizer.row, bind_assoc, repeatedly_eq_call]
    apply call fun _ => rfl
    intro o
    cases o with
    | success value rest =>
      dsimp only
      split
      next hpos =>
        apply stop
        simp [Exchange.stalledAt?, Exchange.collected, hpos, Run.note, Run.ofExcept]
      next hpos =>
        have htail := ih (values ++ [value]) rest
        simp only [Exchange.stall_cons (fun d vs => Event.stalled (Cursor.position d)
          (values ++ vs).length) p value hpos]
        simpa using htail
    | failure => exact stop (by simp [Exchange.stalledAt?, Run.ofExcept])

end Realizes

end Strategy

namespace Parser

open Strategy (Follows Realizes)

variable [Cursor γ σ] [BEq σ] (r : Registry σ δ)

theorem step_realizes (rounds : Nat) (run : Parser σ δ → Recognizer γ (Value σ δ))
    (p : Parser σ δ) (c : γ) :
    Realizes run rounds (p.opening r c) p.closing (step r rounds run p c) (p.strategy r c) := by
  cases p with
  | oneOf symbols =>
    apply Realizes.stop
    simp only [step, Recognizer.action, Recognizer.oneOf]
    cases Cursor.current c with
    | none => rfl
    | some s =>
      rw [Option.filter_some]
      dsimp only
      split <;> rfl
  | anySymbol =>
    apply Realizes.stop
    simp only [step, Recognizer.action, Recognizer.anySymbol]
    cases Cursor.current c <;> rfl
  | endOfInput value =>
    apply Realizes.stop
    simp only [step, Recognizer.endOfInput]
    split <;> rfl
  | sequence ps =>
    simp only [step, Recognizer.action_eq_andThen]
    exact Realizes.inTurn (fun values rest => .ok (.success (.list values) rest)) rounds ps [] c
  | select ps index =>
    let finish (values : List (Value σ δ)) (rest : γ) : Answer γ σ δ :=
      match values[index]? with
      | some value => .ok (.success value rest)
      | none => .error (.noSuchElement index ps.length)
    have hselect : step r rounds run (.select ps index) c =
        (Recognizer.sequence (ps.map run)).andThen
          (fun values rest => .ofExcept (finish values rest)) c := by
      simp only [step, Recognizer.select, List.length_map]
      congr 1
      funext values rest
      simp only [finish]
      cases values[index]? <;> rfl
    rw [hselect]
    exact Realizes.inTurn finish rounds ps [] c
  | pair p q =>
    have hpair : step r rounds run (.pair p q) c =
        (run p).andThen (fun first => (run q).action (.pair first)) c := by
      simp only [step, Recognizer.pair, Recognizer.action_eq_andThen, Recognizer.andThen_andThen,
        Recognizer.succeed_andThen]
    rw [hpair]
    apply Realizes.call fun _ => rfl
    intro o
    cases o with
    | success first rest =>
      apply Realizes.call fun _ => rfl
      intro o
      exact .stop rfl
    | failure => exact .stop rfl
  | choice ps => exact Realizes.firstOf rounds ps c
  | optional p =>
    simp only [step, Recognizer.optional, Recognizer.optionalOr, Recognizer.action, bind_assoc]
    apply Realizes.call fun _ => rfl
    intro o
    cases o <;> exact .stop rfl
  | optionalOr p sentinel =>
    apply Realizes.call fun _ => rfl
    intro o
    cases o <;> exact .stop rfl
  | many p min =>
    let finish (values : List (Value σ δ)) (rest : γ) : Answer γ σ δ :=
      .ok (if min ≤ values.length then .success (.list values) rest else .failure)
    have hmany : step r rounds run (.many p min) c =
        (run p).row rounds 0 c >>= fun row => .ofExcept (finish row.1 row.2) := by
      simp only [step, Recognizer.action, Recognizer.many, bind_assoc, pure_bind]
      congr 1
      funext row
      simp only [finish]
      split <;> rfl
    rw [hmany]
    exact Realizes.repeatedly finish rounds [] c
  | action p f =>
    apply Realizes.call fun _ => rfl
    intro o
    exact .stop rfl
  | reference g name =>
    cases hresolve : r.resolve g name with
    | error e =>
      simp only [strategy, opening, step, Registry.isBound, Registry.binding?, hresolve]
      exact .stop rfl
    | ok body =>
      have hopening : opening r (.reference g name) c = [.resolved name (Cursor.position c)] := by
        simp [opening, Registry.isBound, Registry.binding?, hresolve, Except.toOption]
      have hstep : step r rounds run (.reference g name) c =
          (run body c).after [.resolved name (Cursor.position c)] := by
        simp [step, hresolve, Run.ofExcept, Run.note]
      have hbody : Realizes run rounds [] (closing (.reference g name)) (run body c >>= pure)
          (.call body c fun o => .stop (.ok o)) := by
        apply Realizes.call fun _ => rfl
        intro o
        exact .stop rfl
      rw [bind_pure] at hbody
      simp only [strategy, hresolve]
      rw [hopening, hstep]
      exact hbody.after _
  | leaf x => exact x.elim

/-- What a budget answers comes from the answers of the next smaller one. -/
theorem exists_answers_of_recognizer {budget : Nat} {p : Parser σ δ} {c : γ} {a : Answer γ σ δ}
    (h : (recognizer r (budget + 1) p c).result? = some a) :
    ∃ answers, Follows (recognizer r budget) (p.strategy r c) answers ∧
      p.strategy r c answers = .stop a :=
  (step_realizes r budget (recognizer r budget) p c).exists_answers h

/-- A parser comes to an answer exactly when its strategy does, with the answers of the parsers
that it calls. -/
theorem parse_result?_iff_exists_answers [LawfulCursor γ] {p : Parser σ δ} {c : γ}
    {a : Answer γ σ δ} :
    (p.parse r c).result? = some a ↔
      ∃ answers, Follows (fun q => q.parse r) (p.strategy r c) answers ∧
        p.strategy r c answers = .stop a := by
  constructor
  · intro h
    rw [parse_eq_step r p (Nat.lt_succ_self _)] at h
    exact (step_realizes r _ _ p c).exists_answers h
  · intro h
    obtain ⟨answers, hfollows, hstop⟩ := h
    let rounds := (Cursor.remaining c).length + 1 + answers.length
    rw [parse_eq_step r p (by omega : (Cursor.remaining c).length < rounds)]
    exact (step_realizes r rounds _ p c).result_eq hfollows hstop (Nat.le_add_left _ _)

end Parser

end Descent
