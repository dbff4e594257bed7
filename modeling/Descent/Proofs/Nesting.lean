import Descent.Cursor.Text
import Descent.Grammar.Nesting
import Descent.Proofs.Reading

/-!
# Nested brackets are counted

The rule of nested brackets matches just where a letter is ahead that has as many closing brackets
behind it as there are opening ones in front, however many these are, and comes to their number.
Where they do not match up, all the levels that were begun fail.
-/

namespace Descent.Nesting

open Cursor (advanceBy remaining)
open Descent.Parser (Reads)

variable {γ : Type} [Cursor γ Char]

/-- The brackets in front of the letter tell how many there are behind it. -/
theorem eq_of_print_append {d d' : Nat} {z z' : List Char}
    (h : print d ++ z = print d' ++ z') : d = d' := by
  induction d generalizing d' z z' with
  | zero =>
    cases d' with
    | zero => rfl
    | succ d' =>
      rw [print_zero, print_succ] at h
      injection h with hletter
      exact absurd hletter (by decide)
  | succ d ih =>
    cases d' with
    | zero =>
      rw [print_zero, print_succ] at h
      injection h with hletter
      exact absurd hletter (by decide)
    | succ d' =>
      simp only [print_succ, List.cons_append, List.append_assoc] at h
      injection h with _ hinner
      rw [ih hinner]

theorem delimited (n : Nat) : Delimited print [] n := fun _ _ _ _ h _ _ _ => eq_of_print_append h

section Reads

variable {r : Registry Char Nat} {n : Nat} [LawfulCursor γ]

theorem parens_reads (h : Reads γ r n (.reference grammar "p") print .datum) :
    Reads γ r (n + 1) parens (fun d => print (d + 1)) (fun d => .datum (d + 1)) := by
  have hopening := (Delimited.singleton (n + 1)).subtype (· ∈ ['('])
  have hlevel := (Reads.oneOf ['('] (n + 1)).pair_of_le h
    (fun _ => Nat.le_of_eq (Nat.add_comm n 1)) hopening fun _ _ _ => List.not_mem_nil
  have hdlevel := hopening.pair (delimited (n + 1)) fun _ _ _ => List.not_mem_nil
  have hpair := hlevel.pair (Reads.oneOf [')'] (n + 1)) hdlevel fun _ _ _ => List.not_mem_nil
  refine (hpair.action deeper).map (e := fun x => x.1.2) ?_ ?_ fun _ => rfl
  · exact fun d => ⟨((⟨'(', List.mem_singleton_self _⟩, d), ⟨')', List.mem_singleton_self _⟩), rfl⟩
  · rintro ⟨⟨⟨s, hs⟩, d⟩, s', hs'⟩
    obtain rfl := List.mem_singleton.mp hs
    obtain rfl := List.mem_singleton.mp hs'
    exact print_succ d

theorem letter_reads (r : Registry Char Nat) (n : Nat) :
    Reads γ r n letter (fun _ : { s // s ∈ ['x'] } => print 0) (fun _ => .datum 0) := by
  refine ((Reads.oneOf ['x'] n).action _).map Function.surjective_id ?_ fun _ => rfl
  rintro ⟨s, hs⟩
  obtain rfl := List.mem_singleton.mp hs
  rfl

theorem p_reads (n : Nat) : Reads γ rules n (.reference grammar "p") print .datum := by
  induction n with
  | zero => exact fun c hc => absurd hc (Nat.not_lt_zero _)
  | succ n ih =>
    have hparens : Begins (fun d => print (d + 1)) ['('] :=
      fun d => ⟨'(', List.mem_singleton_self _, print d ++ [')'], print_succ d⟩
    have hletter : Begins (fun _ : { s // s ∈ ['x'] } => print 0) ['x'] :=
      fun _ => ⟨'x', List.mem_singleton_self _, [], rfl⟩
    have hbody := (parens_reads ih).choice (letter_reads rules (n + 1)) hparens hletter (by simp)
    refine (hbody.map (e := Sum.elim (· + 1) fun _ => 0) ?_ ?_ ?_).reference resolve_p
    · rintro (_ | d)
      · exact ⟨.inr ⟨'x', List.mem_singleton_self _⟩, rfl⟩
      · exact ⟨.inl d, rfl⟩
    · rintro (d | _) <;> rfl
    · rintro (d | _) <;> rfl

end Reads

variable [LawfulCursor γ]

/-- Where so many brackets, the letter and as many closing brackets are ahead, the rule matches with
that number, and what remains is what was behind them. It never matches otherwise: then it fails, and
does not end in an error or go on without end. -/
theorem parse_counts (c : γ) :
    (∀ d t, remaining c = List.replicate d '(' ++ 'x' :: List.replicate d ')' ++ t →
      ∃ rest, (rules.parse grammar "p" c).result? = some (.ok (.success (.datum d) rest)) ∧
        remaining rest = t) ∧
    (∀ v rest, (rules.parse grammar "p" c).result? = some (.ok (.success v rest)) →
      ∃ d, v = .datum d ∧
        remaining c = List.replicate d '(' ++ 'x' :: List.replicate d ')' ++ remaining rest) ∧
    ((∀ d t, remaining c ≠ List.replicate d '(' ++ 'x' :: List.replicate d ')' ++ t) →
      (rules.parse grammar "p" c).result? = some (.ok .failure)) := by
  have hresult : (rules.parse grammar "p" c).result? =
      ((Parser.reference grammar "p").parse rules c).result? := by
    rw [Registry.result?_parse, Parser.result?_parse_reference]
  rw [hresult]
  rcases p_reads _ c (Nat.lt_succ_self _) with ⟨d, w, hd, -, hres⟩ | ⟨hnone, hres⟩
  · have hrest : remaining (advanceBy (print d).length c) = w :=
      Cursor.remaining_advanceBy_of_eq hd
    refine ⟨fun d' t ht => ?_, fun v rest h => ?_, fun hne => absurd hd (hne d w)⟩
    · obtain rfl : d = d' := eq_of_print_append (hd.symm.trans ht)
      exact ⟨_, hres, hrest.trans (List.append_cancel_left (hd.symm.trans ht))⟩
    · rw [hres] at h
      cases h
      exact ⟨d, rfl, by rw [hrest]; exact hd⟩
  · refine ⟨fun d t ht => absurd ht (hnone d t), fun v rest h => ?_, fun _ => hres⟩
    rw [hres] at h
    cases h

/-- Two levels with more behind them, and two levels with a closing bracket too few. -/
theorem text_counted :
    (∃ rest, (rules.parse grammar "p" (TextCursor.ofString "((x)))é")).result? =
        some (.ok (.success (.datum 2) rest)) ∧ remaining rest = [')', 'é']) ∧
    (rules.parse grammar "p" (TextCursor.ofString "((x)")).result? = some (.ok .failure) := by
  obtain ⟨hcounts, -, -⟩ := parse_counts (TextCursor.ofString "((x)))é")
  obtain ⟨-, -, hfails⟩ := parse_counts (TextCursor.ofString "((x)")
  refine ⟨hcounts 2 [')', 'é'] (by decide), hfails fun d t h => ?_⟩
  have htext : remaining (TextCursor.ofString "((x)") = ['(', '(', 'x', ')'] := by decide
  rw [htext] at h
  have hlength := congrArg List.length h
  simp only [List.length_append, List.length_cons, List.length_nil, List.length_replicate]
    at hlength
  rcases d with _ | _ | d
  · simp at h
  · simp at h
  · omega

end Descent.Nesting
