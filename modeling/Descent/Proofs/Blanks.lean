import Descent.Cursor.Slice
import Descent.Cursor.Text
import Descent.Grammar.Bindings
import Descent.Parser.Whitespace
import Descent.Proofs.Scanning
import Descent.Proofs.Simulation

/-!
# Blanks do not matter

A parser that reads the input by tokens alone comes to the same on two texts that differ in blanks
alone. A token gives back the blanks that it has skipped when it does not match, and reads a symbol
that is no blank when it does. So a match has moved ahead exactly when it has read such a symbol.
-/

namespace Descent

open Cursor (Reaches)
open Recognizer (accepts Refines)

variable {γ γ' δ : Type} [Cursor γ Char] [Cursor γ' Char]

namespace Parser

def isBlank (s : Char) : Bool := accepts blanks s

variable [LawfulCursor γ] (r : Registry Char δ)

theorem parse_space (c : γ) :
    space.parse r c = pure (.success .unit (Cursor.skip isBlank c)) := by
  have hrow := Recognizer.row_action_oneOf blanks (Value.symbol (δ := δ)) 0 (c := c)
    (Nat.lt_succ_of_le (List.takeWhile_prefix (accepts blanks)).length_le)
  rw [space, parse_action, Recognizer.action, parse_many r _ _ (Nat.lt_succ_self _),
    Recognizer.action, Recognizer.many, parse_oneOf, hrow]
  rfl

/-- A token is a symbol test behind the blanks. -/
theorem parse_tokenIn (characters : List Char) (c : γ) :
    (tokenIn characters).parse r c =
      (Recognizer.oneOf characters).action Value.symbol (Cursor.skip isBlank c) := by
  rw [tokenIn, parse_action, parse_pair, parse_oneOf, Recognizer.action, Recognizer.action,
    Recognizer.pair, Recognizer.andThen, parse_space, pure_bind]
  simp only [Recognizer.action, bind_assoc, pure_bind]
  congr 1
  funext o
  cases o <;> rfl

end Parser

/-- The characters of a text that are no blanks. -/
def unblanked (w : List Char) : List Char := w.filter fun s => !Parser.isBlank s

theorem unblanked_dropWhile (w : List Char) :
    unblanked (w.dropWhile Parser.isBlank) = unblanked w := by
  induction w with
  | nil => rfl
  | cons s w ih =>
    cases hs : Parser.isBlank s with
    | true =>
      rw [List.dropWhile_cons_of_pos hs, ih]
      simp [unblanked, hs]
    | false => rw [List.dropWhile_cons_of_neg (by simp [hs])]

/-- Places with texts ahead that differ in blanks alone. -/
def SameUnblanked (c : γ) (c' : γ') : Prop :=
  unblanked (Cursor.remaining c) = unblanked (Cursor.remaining c')

instance (c : γ) (c' : γ') : Decidable (SameUnblanked c c') :=
  inferInstanceAs (Decidable (unblanked (Cursor.remaining c) = unblanked (Cursor.remaining c')))

namespace Lockstep

/-- The lockstep of two cursors that read the same characters but for blanks. Either one may skip
more blanks than the other, but neither moves while the other one stays. -/
def sameUnblanked [LawfulCursor γ] [LawfulCursor γ'] : Lockstep γ γ' where
  Moves c c' d d' := SameUnblanked c c' ∧ SameUnblanked d d' ∧
    ∃ k k', Reaches k c d ∧ Reaches k' c' d' ∧ (k = 0 ↔ k' = 0)
  stay := by
    intro c d c' d' hmove
    obtain ⟨-, hd, -⟩ := hmove
    exact ⟨hd, hd, 0, 0, .zero d, .zero d', .rfl⟩
  trans := by
    intro c d e c' d' e' hmove hmove'
    obtain ⟨hc, -, j, j', hj, hj', hj0⟩ := hmove
    obtain ⟨-, he, k, k', hk, hk', hk0⟩ := hmove'
    exact ⟨hc, he, j + k, j' + k', hj.trans hk, hj'.trans hk', by omega⟩
  position_eq_iff := by
    intro c d c' d' hmove
    obtain ⟨-, -, k, k', hk, hk', hk0⟩ := hmove
    rw [hk.position_eq_iff, hk'.position_eq_iff, hk0]
  remaining_lt := by
    intro c d c' d' hmove hne
    obtain ⟨-, -, k, k', -, hk', -⟩ := hmove
    have hlen := hk'.length_remaining
    have hmoved := mt hk'.position_eq_iff.mpr hne
    omega
  Notes _ _ := True
  stalled _ _ := trivial
  resolved _ _ := trivial

end Lockstep

namespace Cursor

variable [LawfulCursor γ] [LawfulCursor γ'] {c : γ} {c' : γ'}

theorem unblanked_of_current_skip {s : Char} (hs : current (skip Parser.isBlank c) = some s) :
    unblanked (remaining c) = s :: unblanked (remaining (advance (skip Parser.isBlank c))) := by
  have hnot := current_skip Parser.isBlank c hs
  rw [← unblanked_dropWhile, ← remaining_skip, remaining_eq_cons_of_current hs]
  simp [unblanked, hnot]

theorem unblanked_of_current_skip_none (hs : current (skip Parser.isBlank c) = none) :
    unblanked (remaining c) = [] := by
  rw [← unblanked_dropWhile, ← remaining_skip, (current_eq_none_iff _).mp hs]
  rfl

/-- Behind the blanks both texts go on with the same character. -/
theorem current_skip_eq (h : SameUnblanked c c') :
    current (skip Parser.isBlank c) = current (skip Parser.isBlank c') := by
  have hhead (γ : Type) [Cursor γ Char] [LawfulCursor γ] (c : γ) :
      (unblanked (remaining c)).head? = current (skip Parser.isBlank c) := by
    cases hs : current (skip Parser.isBlank c) with
    | none => rw [unblanked_of_current_skip_none hs, List.head?_nil]
    | some s => rw [unblanked_of_current_skip hs, List.head?_cons]
  rw [← hhead, ← hhead, h]

/-- To read the character behind the blanks is to move ahead, on either side. -/
theorem moves_advance_skip (h : SameUnblanked c c') {s : Char}
    (hs : current (skip Parser.isBlank c) = some s) :
    Lockstep.sameUnblanked.Moves c c' (advance (skip Parser.isBlank c))
      (advance (skip Parser.isBlank c')) := by
  have hs' : current (skip Parser.isBlank c') = some s := by rwa [← current_skip_eq h]
  have hone := Reaches.one (c := skip Parser.isBlank c) (by simp [hs])
  have hone' := Reaches.one (c := skip Parser.isBlank c') (by simp [hs'])
  have hahead : SameUnblanked (advance (skip Parser.isBlank c))
      (advance (skip Parser.isBlank c')) := by
    have htail := h
    rw [SameUnblanked, unblanked_of_current_skip hs, unblanked_of_current_skip hs'] at htail
    exact List.tail_eq_of_cons_eq htail
  exact ⟨h, hahead, _, _, (reaches_skip _ c).trans hone, (reaches_skip _ c').trans hone',
    by omega⟩

end Cursor

namespace Parser

variable [LawfulCursor γ] [LawfulCursor γ'] (r : Registry Char δ)

theorem parse_tokenIn_refines (characters : List Char) :
    Refines Lockstep.sameUnblanked Eq ((tokenIn characters).parse (γ := γ) r)
      ((tokenIn characters).parse (γ := γ') r) := by
  intro c c' hc
  have hsame := Cursor.current_skip_eq hc.1
  rw [parse_tokenIn, parse_tokenIn]
  by_cases htoken : ∃ s, Cursor.current (Cursor.skip isBlank c) = some s ∧
      accepts characters s = true
  · obtain ⟨s, hs, haccepts⟩ := htoken
    rw [Recognizer.action_oneOf_of_accepts _ hs haccepts,
      Recognizer.action_oneOf_of_accepts _ (hsame ▸ hs) haccepts]
    exact .pure (.success rfl (Cursor.moves_advance_skip hc.1 hs))
  · have hrejects (s : Char) (hs : Cursor.current (Cursor.skip isBlank c) = some s) :
        accepts characters s = false := by
      simpa using fun haccepts => htoken ⟨s, hs, haccepts⟩
    rw [Recognizer.action_oneOf_of_rejects _ hrejects,
      Recognizer.action_oneOf_of_rejects _ fun s hs => hrejects s (hsame ▸ hs)]
    exact .pure .failure

/-- The parser reads the input by tokens alone, and so do the rules that it refers to, which are
among `rules`. -/
inductive ByTokens (rules : GrammarId × String → Prop) : Parser Char δ → Prop
  | tokenIn (characters : List Char) : ByTokens rules (tokenIn characters)
  | sequence {ps : List (Parser Char δ)} :
      (∀ p ∈ ps, ByTokens rules p) → ByTokens rules (.sequence ps)
  | select {ps : List (Parser Char δ)} (index : Nat) :
      (∀ p ∈ ps, ByTokens rules p) → ByTokens rules (.select ps index)
  | pair {p q : Parser Char δ} :
      ByTokens rules p → ByTokens rules q → ByTokens rules (.pair p q)
  | choice {ps : List (Parser Char δ)} :
      (∀ p ∈ ps, ByTokens rules p) → ByTokens rules (.choice ps)
  | optional {p : Parser Char δ} : ByTokens rules p → ByTokens rules (.optional p)
  | optionalOr {p : Parser Char δ} (sentinel : Value Char δ) :
      ByTokens rules p → ByTokens rules (.optionalOr p sentinel)
  | many {p : Parser Char δ} (min : Nat) : ByTokens rules p → ByTokens rules (.many p min)
  | action {p : Parser Char δ} (f : Value Char δ → Value Char δ) :
      ByTokens rules p → ByTokens rules (.action p f)
  | reference {g : GrammarId} {name : String} :
      rules (g, name) → ByTokens rules (.reference g name)

end Parser

/-- What is bound to the names of `rules` reads the input by tokens alone. -/
def Registry.ByTokens (r : Registry Char δ) (rules : GrammarId × String → Prop) : Prop :=
  ∀ g name body, rules (g, name) → r.resolve g name = .ok body → body.ByTokens rules

namespace Parser

variable [LawfulCursor γ] [LawfulCursor γ'] {r : Registry Char δ}
variable {rules : GrammarId × String → Prop}

theorem recognizer_tokenIn_refines (r : Registry Char δ) (characters : List Char) (budget : Nat) :
    Refines Lockstep.sameUnblanked Eq (recognizer (γ := γ) r budget (tokenIn characters))
      ((tokenIn characters).parse (γ := γ') r) := by
  intro c c' hc
  by_cases hfin : recognizer r budget (tokenIn characters) c = .unfinished
  · rw [hfin]
    exact .unfinished _
  · rw [recognizer_eq_parse_of_ne_unfinished r hfin]
    exact parse_tokenIn_refines r characters c c' hc

/-- Tokens run alike, and all else is built alike without looking at the input itself. -/
theorem ByTokens.simulates (hr : r.ByTokens rules) :
    Simulates r r Eq Eq (Lockstep.sameUnblanked : Lockstep γ γ')
      fun p p' => p = p' ∧ p.ByTokens rules := by
  rintro p _ ⟨rfl, hp⟩
  have hbuilt (hlooks : ¬ p.Looks) (hparts : ∀ q ∈ p.parts, q.ByTokens rules)
      (hrule : ∀ g name, p = .reference g name → rules (g, name)) :
      Congruent r r Eq Eq (fun p p' => p = p' ∧ p.ByTokens rules) p p ∧
        (p.Looks → (Lockstep.sameUnblanked : Lockstep γ γ').Reads Eq) := by
    refine ⟨.refl (fun q hq => ⟨rfl, hparts q hq⟩) ?_, fun h => (hlooks h).elim⟩
    intro g name body hp hbody
    exact ⟨rfl, hr g name body (hrule g name hp) hbody⟩
  cases hp with
  | tokenIn characters => exact .inr (recognizer_tokenIn_refines r characters)
  | sequence hps | select _ hps | choice hps => exact .inl (hbuilt id hps nofun)
  | pair hp hq =>
    refine .inl (hbuilt id (fun q' hq' => ?_) nofun)
    rcases List.mem_cons.mp hq' with rfl | hq'
    · exact hp
    · exact List.mem_singleton.mp hq' ▸ hq
  | optional hp | optionalOr _ hp | many _ hp | action _ hp =>
    exact .inl (hbuilt id (fun q hq => List.mem_singleton.mp hq ▸ hp) nofun)
  | reference hrule =>
    refine .inl (hbuilt id nofun fun g name heq => ?_)
    cases heq
    exact hrule

/-- Two texts that differ in blanks alone are parsed alike by tokens: both parses do not end, fail,
or end in one error, or they match with one value and leave texts that differ in blanks alone. -/
theorem parse_concur_of_sameUnblanked (hr : r.ByTokens rules) {p : Parser Char δ}
    (hp : p.ByTokens rules) {c : γ} {c' : γ'} (h : SameUnblanked c c') :
    Run.Concur (Outcome.Matches Eq SameUnblanked) (p.parse r c) (p.parse r c') := by
  have hright := (ByTokens.simulates hr).parse_refines Value.corresponds_eq ⟨rfl, hp⟩ c c'
    ⟨h, h, 0, 0, .zero c, .zero c', .rfl⟩
  have hleft := (ByTokens.simulates hr).parse_refines Value.corresponds_eq ⟨rfl, hp⟩ c' c
    ⟨h.symm, h.symm, 0, 0, .zero c', .zero c, .rfl⟩
  exact .of_refines (hright.mono fun o o' ho => ho.mono fun d d' hd => hd.2.1) hleft

end Parser

namespace Lists

open Descent.Parser (token tokenIn)

def grammar : GrammarId := ⟨0⟩

/-- A letter, or one or more lists in brackets. -/
def list : Parser Char Unit :=
  .choice
    [.pair (token '(') (.pair (.many (.reference grammar "list") 1) (token ')')),
      tokenIn ['a', 'b', 'c']]

def rules : Registry Char Unit := Registry.empty.create.2.bind grammar "list" list

theorem list_byTokens : list.ByTokens (fun x => x = (grammar, "list")) := by
  apply Parser.ByTokens.choice
  intro p hp
  simp only [List.mem_cons, List.not_mem_nil, or_false] at hp
  rcases hp with rfl | rfl
  · exact .pair (.tokenIn ['(']) (.pair (.many 1 (.reference rfl)) (.tokenIn [')']))
  · exact .tokenIn ['a', 'b', 'c']

theorem rules_byTokens : rules.ByTokens (fun x => x = (grammar, "list")) := by
  intro g name body hrule hbody
  cases hrule
  have hlist : rules.resolve grammar "list" = .ok list := rfl
  cases hlist.symm.trans hbody
  exact list_byTokens

/-- The list `(a(b))` with an unmatched bracket behind it. -/
def tight : Array Char := #['(', 'a', '(', 'b', ')', ')', ')']

/-- The same with blanks of all kinds in front of characters, and of brackets that end a list. -/
def loose : TextCursor := .ofString " ( a\n(b\t ) )  )"

/-- Blanks before a bracket that ends a list are skipped in vain by one more round of the
repetition, and given back. -/
theorem list_concur :
    rules.ByTokens (fun x => x = (grammar, "list")) ∧
    list.ByTokens (fun x => x = (grammar, "list")) ∧
    SameUnblanked (SliceCursor.ofArray tight) loose ∧
    Run.Concur (Outcome.Matches Eq SameUnblanked) (list.parse rules (SliceCursor.ofArray tight))
      (list.parse rules loose) ∧
    (list.parse rules (SliceCursor.ofArray tight)).result? =
      some (.ok (.success (.pair (.symbol '(') (.pair (.list [.symbol 'a',
        .pair (.symbol '(') (.pair (.list [.symbol 'b']) (.symbol ')'))]) (.symbol ')')))
        (.reading tight 6))) := by
  have hsame : SameUnblanked (SliceCursor.ofArray tight) loose := by decide
  exact ⟨rules_byTokens, list_byTokens, hsame,
    Parser.parse_concur_of_sameUnblanked rules_byTokens list_byTokens hsame, rfl⟩

end Lists

end Descent
