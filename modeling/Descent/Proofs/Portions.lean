import Descent.Proofs.Log
import Descent.Proofs.Repetition

/-!
# Portions of the input

Every match that a repetition keeps reads a portion of the input of its own, with at least one
symbol in it, and the next match starts behind it. So the portions make up what the repetition
reads, and the number of symbols bounds both the values that it collects and the calls that it
makes.
-/

namespace Descent

open Cursor (Reaches)

variable {γ σ δ α : Type} [Cursor γ σ]

namespace Recognizer

/-- Matches in a row from one cursor to another, each with its value and the symbols that it has
read, which are not none. -/
inductive Portions (p : Recognizer γ α) : γ → List (α × List σ) → γ → Prop
  | nil (c : γ) : Portions p c [] c
  | cons {c rest last : γ} {value : α} {k : Nat} {portions : List (α × List σ)} :
      (p c).result? = some (.ok (.success value rest)) → Reaches k c rest → 0 < k →
      Portions p rest portions last →
      Portions p c ((value, (Cursor.remaining c).take k) :: portions) last

variable [LawfulCursor γ] {P : Prop} {p : Recognizer γ α} {c last : γ}

namespace Portions

variable {portions : List (α × List σ)}

omit [LawfulCursor γ] in
theorem ne_nil (h : Portions p c portions last) : ∀ portion ∈ portions, portion.2 ≠ [] := by
  induction h with
  | nil c => simp
  | @cons c rest last value k portions _ hk hpos _ ih =>
    refine List.forall_mem_cons.mpr ⟨?_, ih⟩
    have hlen := hk.1
    rw [ne_eq, List.take_eq_nil_iff, ← List.length_eq_zero_iff]
    omega

/-- What was read falls into the portions. -/
theorem flatMap_append (h : Portions p c portions last) :
    portions.flatMap Prod.snd ++ Cursor.remaining last = Cursor.remaining c := by
  induction h with
  | nil c => rfl
  | @cons c rest last value k portions _ hk _ _ ih =>
    rw [List.flatMap_cons, List.append_assoc, ih, hk.remaining_eq, List.take_append_drop]

theorem length_le (h : Portions p c portions last) :
    portions.length + (Cursor.remaining last).length ≤ (Cursor.remaining c).length := by
  induction h with
  | nil c => simp
  | cons _ hk hpos _ ih =>
    have hlen := hk.length_remaining
    rw [List.length_cons]
    omega

end Portions

/-- A round leaves another position, so it has read something. -/
theorem Rounds.exists_portions {values : List α} (h : Rounds p c values last)
    (hp : ReadsUnless P p) :
    ∃ portions, portions.map Prod.fst = values ∧ Portions p c portions last := by
  induction h with
  | nil c => exact ⟨[], rfl, .nil c⟩
  | @cons c rest last value values hvalue hpos _ ih =>
    obtain ⟨k, hk, -⟩ := hp c value rest hvalue
    obtain ⟨portions, rfl, hportions⟩ := ih
    have hk0 := Nat.pos_of_ne_zero (mt hk.position_eq_iff.mpr hpos)
    exact ⟨_, rfl, .cons hvalue hk hk0 hportions⟩

/-- Rounds that use up the input come to an end, if no run on their way goes on without end. -/
theorem ReadsUnless.exists_last_round (hp : ReadsUnless P p)
    (hends : ∀ values last, Rounds p c values last → p last ≠ .unfinished) :
    ∃ values last, Rounds p c values last ∧
      (StopsAt p last ∨ ∃ e, (p last).result? = some (.error e)) := by
  induction hlength : (Cursor.remaining c).length using Nat.strongRecOn generalizing c with
  | ind length ih =>
    cases hc : (p c).result? with
    | none => exact absurd (Run.result?_eq_none_iff.mp hc) (hends [] c (.nil c))
    | some result =>
      rcases result with e | ⟨value, rest⟩ | _
      case error => exact ⟨[], c, .nil c, .inr ⟨e, hc⟩⟩
      case ok.failure => exact ⟨[], c, .nil c, .inl (.inl hc)⟩
      case ok.success =>
        by_cases hpos : Cursor.position rest = Cursor.position c
        · exact ⟨[], c, .nil c, .inl (.inr ⟨value, rest, hc, hpos⟩)⟩
        · obtain ⟨k, hk, -⟩ := hp c value rest hc
          have hlen := hk.length_remaining
          have hk0 := mt hk.position_eq_iff.mpr hpos
          obtain ⟨values, last, hrounds, hlast⟩ := ih (Cursor.remaining rest).length (by omega)
            (fun values last hrounds => hends (value :: values) last (.cons hc hpos hrounds)) rfl
          exact ⟨value :: values, last, .cons hc hpos hrounds, hlast⟩

end Recognizer

variable [BEq σ] {r : Registry σ δ} {p : Parser σ δ} {min : Nat} {c : γ}

namespace Strategy

theorem Makes.length_le_of_repeatedly [LawfulCursor γ]
    {finish : List (Value σ δ) → γ → Answer γ σ δ} {values : List (Value σ δ)}
    {xs : List (Exchange γ σ δ)} (h : Makes (repeatedly finish p values c) xs)
    (hanswers : ∀ x ∈ xs, (x.parser.parse r x.cursor).result? = some x.answer) :
    (∀ x ∈ xs, x.parser = p) ∧ xs.length ≤ (Cursor.remaining c).length + 1 := by
  induction xs generalizing values c with
  | nil => simp
  | cons x xs ih =>
    obtain ⟨rfl, rfl, rfl | ⟨value, rest, hvalue, hpos, hxs⟩⟩ := h.repeatedly_cons
    · simp
    · obtain ⟨hx, hanswers⟩ := List.forall_mem_cons.mp hanswers
      rw [hvalue] at hx
      obtain ⟨hparser, hlength⟩ := ih hxs hanswers
      obtain ⟨k, hk, -⟩ := Parser.parse_success_reaches_or_nullable r hx
      have hlen := hk.length_remaining
      have hk0 := mt hk.position_eq_iff.mpr hpos
      refine ⟨List.forall_mem_cons.mpr ⟨rfl, hparser⟩, ?_⟩
      rw [List.length_cons]
      omega

end Strategy

/-- A repetition calls nothing but what it repeats, and that no more than once for each symbol and
once more. -/
theorem CallTree.Sound.length_exchanges_le [LawfulCursor γ] {t : CallTree γ σ δ} (h : t.Sound r)
    (hp : t.root.parser = .many p min) :
    (∀ x ∈ t.exchanges, x.parser = p) ∧
      t.exchanges.length ≤ (Cursor.remaining t.root.cursor).length + 1 := by
  cases h with
  | @node x calls hmakes _ hcalls =>
    obtain ⟨q, c, a⟩ := x
    dsimp only [root] at hp hmakes
    subst hp
    exact hmakes.length_le_of_repeatedly (List.forall_mem_map.mpr fun t ht => (hcalls t ht).result?)

namespace Parser

open Recognizer (Portions Rounds)

variable [LawfulCursor γ] (r)

/-- A repetition ends, if what it repeats does wherever the repetition comes to. -/
theorem exists_result?_many
    (hends : ∀ values last, Rounds (p.parse r) c values last → p.parse r last ≠ .unfinished) :
    ∃ a, ((many p min).parse r c).result? = some a := by
  have hreads := parse_readsUnless_nullable (γ := γ) r p
  obtain ⟨values, last, hrounds, hstop | ⟨e, he⟩⟩ := hreads.exists_last_round hends
  · exact ⟨_, (result?_parse_many_iff r).mpr ⟨values, last, hrounds, .inl ⟨hstop, rfl⟩⟩⟩
  · exact ⟨_, (result?_parse_many_iff r).mpr ⟨values, last, hrounds, .inr ⟨e, he, rfl⟩⟩⟩

theorem exists_portions_of_many {value : Value σ δ} {rest : γ}
    (h : ((many p min).parse r c).result? = some (.ok (.success value rest))) :
    ∃ portions, value = .list (portions.map Prod.fst) ∧
      Portions (p.parse r) c portions rest ∧ min ≤ portions.length := by
  obtain ⟨values, rfl, hrounds, -, hmin⟩ := (parse_many_success_iff r).mp h
  obtain ⟨portions, rfl, hportions⟩ :=
    hrounds.exists_portions (parse_readsUnless_nullable (γ := γ) r p)
  rw [List.length_map] at hmin
  exact ⟨portions, rfl, hportions, hmin⟩

/-- A repetition is bounded by the input. If what it repeats ends wherever the repetition comes to,
it ends itself, and in the one tree of its calls there are at most one for each symbol left and one
more. Its values come from portions of the input, none of them empty, that make up what it reads; so
there are no more values than symbols read, and a minimum above the number of symbols left is never
met. -/
theorem parse_many_bounded (p : Parser σ δ) (min : Nat) (c : γ)
    (hends : ∀ values last, Rounds (p.parse r) c values last → p.parse r last ≠ .unfinished) :
    (∃ t : CallTree γ σ δ, t.Sound r ∧ t.root.parser = .many p min ∧ t.root.cursor = c ∧
      (∀ t' : CallTree γ σ δ, t'.Sound r → t'.root.parser = .many p min → t'.root.cursor = c →
        t' = t) ∧
      (many p min).parse r c = .finished (t.log r) t.root.answer ∧
      (∀ x ∈ t.exchanges, x.parser = p) ∧
      t.exchanges.length ≤ (Cursor.remaining c).length + 1) ∧
    (∀ value rest, ((many p min).parse r c).result? = some (.ok (.success value rest)) →
      ∃ portions, value = .list (portions.map Prod.fst) ∧
        Portions (p.parse r) c portions rest ∧
        (∀ portion ∈ portions, portion.2 ≠ []) ∧
        portions.flatMap Prod.snd ++ Cursor.remaining rest = Cursor.remaining c ∧
        portions.length + (Cursor.remaining rest).length ≤ (Cursor.remaining c).length) ∧
    ((Cursor.remaining c).length < min → ∀ value rest,
      ((many p min).parse r c).result? ≠ some (.ok (.success value rest))) := by
  refine ⟨?_, fun value rest h => ?_, fun hmin value rest h => ?_⟩
  · obtain ⟨a, ha⟩ := exists_result?_many r hends
    obtain ⟨events, hevents⟩ := Run.result?_eq_some_iff.mp ha
    obtain ⟨t, ht, hroot, rfl⟩ := CallTree.parse_eq_finished_iff.mp hevents
    have hparser : t.root.parser = .many p min := by rw [hroot]
    have hcursor : t.root.cursor = c := by rw [hroot]
    obtain ⟨hcalls, hlength⟩ := ht.length_exchanges_le hparser
    rw [hcursor] at hlength
    refine ⟨t, ht, hparser, hcursor, ?_, ?_, hcalls, hlength⟩
    · intro t' ht' hparser' hcursor'
      exact ht'.unique ht (hparser'.trans hparser.symm) (hcursor'.trans hcursor.symm)
    · rw [hevents, hroot]
  · obtain ⟨portions, hvalue, hportions, -⟩ := exists_portions_of_many r h
    exact ⟨portions, hvalue, hportions, hportions.ne_nil, hportions.flatMap_append,
      hportions.length_le⟩
  · obtain ⟨portions, -, hportions, hle⟩ := exists_portions_of_many r h
    have hlength := hportions.length_le
    omega

end Parser

namespace Brackets

open Recognizer (Portions Rounds)

/-- An item, if there is one. -/
def piece : Parser Char Unit := .optional (.reference grammar "item")

def pieces : Array Char := #['x', '(', 'x', ')', 'y']

theorem mem_of_rounds_piece {values : List (Value Char Unit)} {last : SliceCursor Char}
    (h : Rounds (piece.parse rules) (.reading pieces 0) values last) :
    last = .reading pieces 0 ∨ last = .reading pieces 1 ∨ last = .reading pieces 4 := by
  have hfirst : (piece.parse rules (SliceCursor.reading pieces 0)).result? =
      some (.ok (.success (.present (.symbol 'x')) (.reading pieces 1))) := rfl
  have hsecond : (piece.parse rules (SliceCursor.reading pieces 1)).result? =
      some (.ok (.success (.present (.list [.symbol '(', .list [.symbol 'x'], .symbol ')']))
        (.reading pieces 4))) := rfl
  have hthird : (piece.parse rules (SliceCursor.reading pieces 4)).result? =
      some (.ok (.success .absent (.reading pieces 4))) := rfl
  cases h with
  | nil => exact .inl rfl
  | cons h _ hrounds =>
    cases hfirst.symm.trans h
    cases hrounds with
    | nil => exact .inr (.inl rfl)
    | cons h _ hrounds =>
      cases hsecond.symm.trans h
      cases hrounds with
      | nil => exact .inr (.inr rfl)
      | cons h hpos _ =>
        cases hthird.symm.trans h
        exact absurd rfl hpos

/-- Two items are collected, and there is no call but for them and for the third one, which is
missing. Six of them would be more than there are symbols. -/
theorem pieces_many_bounded :
    let c := SliceCursor.reading pieces 0
    (∀ values last, Rounds (piece.parse rules) c values last →
      piece.parse rules last ≠ .unfinished) ∧
    (∃ t : CallTree (SliceCursor Char) Char Unit, t.Sound rules ∧
      t.root.parser = .many piece 2 ∧ t.root.cursor = c ∧
      (∀ t' : CallTree (SliceCursor Char) Char Unit, t'.Sound rules →
        t'.root.parser = .many piece 2 → t'.root.cursor = c → t' = t) ∧
      (Parser.many piece 2).parse rules c = .finished (t.log rules) t.root.answer ∧
      (∀ x ∈ t.exchanges, x.parser = piece) ∧ t.exchanges.length ≤ 6) ∧
    (∃ portions, portions.map Prod.fst = [.present (.symbol 'x'),
        .present (.list [.symbol '(', .list [.symbol 'x'], .symbol ')'])] ∧
      Portions (piece.parse rules) c portions (.reading pieces 4) ∧
      (∀ portion ∈ portions, portion.2 ≠ []) ∧
      portions.flatMap Prod.snd ++ ['y'] = ['x', '(', 'x', ')', 'y']) ∧
    ∀ value rest, ((Parser.many piece 6).parse rules c).result? ≠
      some (.ok (.success value rest)) := by
  intro c
  have hends (values : List (Value Char Unit)) (last : SliceCursor Char)
      (h : Rounds (piece.parse rules) c values last) : piece.parse rules last ≠ .unfinished := by
    rcases mem_of_rounds_piece h with rfl | rfl | rfl <;> exact nofun
  have hfound : ((Parser.many piece 2).parse rules c).result? =
      some (.ok (.success (.list [.present (.symbol 'x'),
        .present (.list [.symbol '(', .list [.symbol 'x'], .symbol ')'])])
        (.reading pieces 4))) := rfl
  obtain ⟨hcalls, hportions, -⟩ := Parser.parse_many_bounded rules piece 2 c hends
  obtain ⟨portions, hvalue, hread, hne, hflat, -⟩ := hportions _ _ hfound
  injection hvalue with hvalues
  have hmany := (Parser.parse_many_bounded rules piece 6 c hends).2.2 (by decide)
  exact ⟨hends, hcalls, ⟨portions, hvalues.symm, hread, hne, hflat⟩, hmany⟩

end Brackets

end Descent
