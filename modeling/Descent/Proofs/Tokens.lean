import Descent.Proofs.Blanks

/-!
# Tokens behind blanks

A token looks at the first character behind the longest run of blanks ahead, and at nothing else.
So a blank is never a token, and it makes no difference whether there are blanks in a set of tokens.
-/

namespace Descent

open Recognizer (accepts_iff_mem)

variable {γ δ : Type} [Cursor γ Char]

namespace Parser

/-- What is ahead but for the blanks in front. -/
def ahead (c : γ) : List Char := (Cursor.remaining c).dropWhile isBlank

variable {characters : List Char} {c rest : γ} {s : Char}

/-- No blank stands behind all blanks. -/
theorem isBlank_eq_false_of_head? (h : (ahead c).head? = some s) : isBlank s = false := by
  have hnot := List.head?_dropWhile_not isBlank (Cursor.remaining c)
  rwa [← ahead, h] at hnot

variable [LawfulCursor γ] (r : Registry Char δ)

theorem current_skip_eq_head? (c : γ) :
    Cursor.current (Cursor.skip isBlank c) = (ahead c).head? := by
  rw [LawfulCursor.current_eq_head?, Cursor.remaining_skip, ahead]

theorem parse_tokenIn_of_mem (hs : (ahead c).head? = some s) (hmem : s ∈ characters) :
    (tokenIn characters).parse r c =
      pure (.success (.symbol s) (Cursor.advance (Cursor.skip isBlank c))) := by
  rw [← current_skip_eq_head?] at hs
  rw [parse_tokenIn, Recognizer.action_oneOf_of_accepts _ hs (accepts_iff_mem.mpr hmem)]

theorem parse_tokenIn_of_not_mem (h : ∀ s ∈ characters, (ahead c).head? ≠ some s) :
    (tokenIn characters).parse r c = pure .failure := by
  rw [parse_tokenIn, Recognizer.action_oneOf_of_rejects]
  intro s hs
  rw [current_skip_eq_head?] at hs
  rw [Bool.eq_false_iff]
  exact fun haccepts => h s (accepts_iff_mem.mp haccepts) hs

theorem parse_tokenIn_success_iff {value : Value Char δ} :
    ((tokenIn characters).parse r c).result? = some (.ok (.success value rest)) ↔
      ∃ s ∈ characters, (ahead c).head? = some s ∧
        value = .symbol s ∧ rest = Cursor.advance (Cursor.skip isBlank c) := by
  constructor
  · intro h
    by_cases hahead : ∃ s ∈ characters, (ahead c).head? = some s
    · obtain ⟨s, hmem, hs⟩ := hahead
      rw [parse_tokenIn_of_mem r hs hmem] at h
      cases h
      exact ⟨s, hmem, hs, rfl, rfl⟩
    · rw [parse_tokenIn_of_not_mem r fun s hmem hs => hahead ⟨s, hmem, hs⟩] at h
      cases h
  · rintro ⟨s, hmem, hs, rfl, rfl⟩
    rw [parse_tokenIn_of_mem r hs hmem, Run.result?_pure]

/-- Blanks in a set of tokens are of no use. -/
theorem parse_tokenIn_filter (characters : List Char) (c : γ) :
    (tokenIn (characters.filter fun s => !isBlank s)).parse r c =
      (tokenIn characters).parse r c := by
  by_cases hahead : ∃ s ∈ characters, (ahead c).head? = some s
  · obtain ⟨s, hmem, hs⟩ := hahead
    have hkept : s ∈ characters.filter fun s => !isBlank s := by
      simp [hmem, isBlank_eq_false_of_head? hs]
    rw [parse_tokenIn_of_mem r hs hkept, parse_tokenIn_of_mem r hs hmem]
  · have hnone (s : Char) (hmem : s ∈ characters) : (ahead c).head? ≠ some s :=
      fun hs => hahead ⟨s, hmem, hs⟩
    rw [parse_tokenIn_of_not_mem r fun s hmem => hnone s (List.mem_of_mem_filter hmem),
      parse_tokenIn_of_not_mem r hnone]

/-- The parser of blanks matches up to the first character that is none. A token is there if this
character is one of the set; then it is read, and otherwise there is a failure. So a blank is never
there, and a set comes to the same without its blanks. -/
theorem parse_tokenIn_iff (c : γ) :
    (∃ rest, (space.parse r c).result? = some (.ok (.success .unit rest)) ∧
      Cursor.remaining rest = ahead c) ∧
    (∀ characters,
      ((∃ value rest, ((tokenIn characters).parse r c).result? =
          some (.ok (.success value rest))) ↔ ∃ s ∈ characters, (ahead c).head? = some s) ∧
      (∀ value rest, ((tokenIn characters).parse r c).result? =
          some (.ok (.success value rest)) →
        ∃ s ∈ characters, value = .symbol s ∧ ahead c = s :: Cursor.remaining rest) ∧
      ((∀ s ∈ characters, (ahead c).head? ≠ some s) →
        ((tokenIn characters).parse r c).result? = some (.ok .failure)) ∧
      (tokenIn characters).parse r c =
        (tokenIn (characters.filter fun s => !isBlank s)).parse r c) ∧
    ∀ s, (token s).parse r c = (tokenIn [s]).parse r c ∧
      (isBlank s = true → ((token s).parse r c).result? = some (.ok .failure)) := by
  have hfailure (characters : List Char) (h : ∀ s ∈ characters, (ahead c).head? ≠ some s) :
      ((tokenIn characters).parse r c).result? = some (.ok .failure) := by
    rw [parse_tokenIn_of_not_mem r h, Run.result?_pure]
  refine ⟨⟨_, by rw [parse_space, Run.result?_pure], Cursor.remaining_skip _ c⟩,
    fun characters => ⟨⟨?_, ?_⟩, ?_, hfailure characters, ?_⟩, fun s => ⟨rfl, fun hs => ?_⟩⟩
  · rintro ⟨value, rest, h⟩
    obtain ⟨s, hmem, hs, -⟩ := (parse_tokenIn_success_iff r).mp h
    exact ⟨s, hmem, hs⟩
  · rintro ⟨s, hmem, hs⟩
    exact ⟨_, _, (parse_tokenIn_success_iff r).mpr ⟨s, hmem, hs, rfl, rfl⟩⟩
  · intro value rest h
    obtain ⟨s, hmem, hs, rfl, rfl⟩ := (parse_tokenIn_success_iff r).mp h
    rw [← current_skip_eq_head?] at hs
    have hahead : Cursor.remaining (Cursor.skip isBlank c) = ahead c := Cursor.remaining_skip _ c
    exact ⟨s, hmem, rfl, hahead.symm.trans (Cursor.remaining_eq_cons_of_current hs)⟩
  · exact (parse_tokenIn_filter r characters c).symm
  · refine hfailure [s] (List.forall_mem_singleton.mpr fun hhead => ?_)
    exact Bool.false_ne_true ((isBlank_eq_false_of_head? hhead).symm.trans hs)

end Parser

namespace Signs

/-- Blanks of all kinds, a sign, and what is no blank though it looks like one. -/
def spaced : TextCursor := .ofString " \t\n+\u00a0-"

/-- The sign is found behind the blanks. Behind the sign nothing is skipped, so the other one is not
found there, and the blanks themselves are never found. -/
theorem spaced_parse_tokenIn :
    let r : Registry Char Unit := .empty
    (∃ rest, (Parser.space.parse r spaced).result? = some (.ok (.success .unit rest)) ∧
      Cursor.remaining rest = ['+', '\u00a0', '-']) ∧
    (∃ value rest, ((Parser.tokenIn ['-', '+', ' ']).parse r spaced).result? =
      some (.ok (.success value rest))) ∧
    ((Parser.token '-').parse r (SliceCursor.reading #['+', '\u00a0', '-'] 1)).result? =
      some (.ok .failure) ∧
    ((Parser.token '\t').parse r spaced).result? = some (.ok .failure) := by
  intro r
  obtain ⟨hspace, htokenIn, htoken⟩ := Parser.parse_tokenIn_iff r spaced
  have hahead : Parser.ahead spaced = ['+', '\u00a0', '-'] := by decide
  rw [hahead] at hspace htokenIn
  obtain ⟨-, hbehind, -⟩ :=
    Parser.parse_tokenIn_iff r (SliceCursor.reading #['+', '\u00a0', '-'] 1)
  have hnot : ∀ s ∈ ['-'], (Parser.ahead (SliceCursor.reading #['+', '\u00a0', '-'] 1)).head? ≠
      some s := List.forall_mem_singleton.mpr (by decide)
  exact ⟨hspace, (htokenIn _).1.mpr ⟨'+', by simp, rfl⟩, (hbehind ['-']).2.2.1 hnot,
    (htoken '\t').2 rfl⟩

end Signs

end Descent
