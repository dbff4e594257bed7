import Descent.Proofs.Decoding
import Descent.Text.Described

/-!
# Legible symbols

Symbols are legible if they can be told from their descriptions, whatever comes behind these in a
longer one. Numbers are, and so are characters: a comma or a bracket stands between quotes, and a
quote between quotes has a backslash in front.
-/

namespace Descent

/-- Symbols that can be told from their descriptions. -/
class Legible (σ : Type) [Described σ] where
  decoder : Decoder σ
  decodes (s : σ) : Decodes decoder (describe s).toList s
  opens (s : σ) : Opens (describe s).toList

theorem opens_repr_nat (n : Nat) : Opens n.repr.toList := by
  obtain ⟨s, u, hs, hdigit⟩ := Decodes.repr_eq_cons n
  refine ⟨s, u, hs, ?_⟩
  rintro rfl
  cases hdigit

theorem opens_repr_int (i : Int) : Opens i.repr.toList := by
  rw [Int.repr_eq_if]
  split
  · exact opens_repr_nat _
  · exact ⟨'-', _, String.toList_append, by decide⟩

instance : Legible UInt8 where
  decoder := UInt8.ofNat <$> Decoder.number
  decodes n := by
    have hnumber := (Decodes.number n.toNat).map UInt8.ofNat
    rwa [UInt8.ofNat_toNat] at hnumber
  opens n := opens_repr_nat n.toNat

instance : Legible Int64 where
  decoder := Int64.ofInt <$> Decoder.integer
  decodes n := by
    have hinteger := (Decodes.integer n.toInt).map Int64.ofInt
    rwa [Int64.ofInt_toInt] at hinteger
  opens n := opens_repr_int n.toInt

namespace Text

def hexValue (s : Char) : Nat := if s.isDigit then s.toNat - 48 else s.toNat - 87

/-- The number that hexadecimal digits stand for. -/
def ofHexDigits (ds : List Char) : Nat := ds.foldl (fun n s => 16 * n + hexValue s) 0

theorem hexValue_digitChar : ∀ d < 16, hexValue (Nat.digitChar d) = d := by decide

theorem digitChar_ne_brace : ∀ d < 16, Nat.digitChar d ≠ '}' := by decide

/-- A number is written as the number without its last digit, and that digit. -/
theorem toDigits_induction {motive : Nat → List Char → Prop}
    (single : ∀ d < 16, motive d [Nat.digitChar d])
    (append : ∀ n d w, d < 16 → motive n w → motive (16 * n + d) (w ++ [Nat.digitChar d]))
    (n : Nat) : motive n (Nat.toDigits 16 n) := by
  induction n using Nat.strongRecOn with
  | ind n ih =>
    by_cases hn : n < 16
    · rw [Nat.toDigits_of_lt_base hn]
      exact single n hn
    · have hlt : n / 16 < n := by omega
      have happend := append (n / 16) (n % 16) _ (Nat.mod_lt n (by decide)) (ih (n / 16) hlt)
      rwa [Nat.div_add_mod, ← Nat.toDigits_of_base_le (by decide) (Nat.le_of_not_lt hn)] at happend

theorem ofHexDigits_toDigits (n : Nat) : ofHexDigits (Nat.toDigits 16 n) = n := by
  refine toDigits_induction (motive := fun n w => ofHexDigits w = n) ?_ ?_ n
  · intro d hd
    simp [ofHexDigits, hexValue_digitChar d hd]
  · intro n d w hd hw
    rw [ofHexDigits] at hw
    rw [ofHexDigits, List.foldl_append, hw, List.foldl_cons, List.foldl_nil,
      hexValue_digitChar d hd]

theorem brace_not_mem_toDigits (n : Nat) : '}' ∉ Nat.toDigits 16 n := by
  refine toDigits_induction (motive := fun _ w => '}' ∉ w) ?_ ?_ n
  · intro d hd hmem
    exact digitChar_ne_brace d hd (List.mem_singleton.mp hmem).symm
  · intro n d w hd hw hmem
    rcases List.mem_append.mp hmem with hmem | hmem
    · exact hw hmem
    · exact digitChar_ne_brace d hd (List.mem_singleton.mp hmem).symm

end Text

namespace Decoder

def anyChar : Decoder Char
  | [] => none
  | s :: w => some (s, w)

/-- The character that a letter or a sign behind a backslash stands for. -/
def unescaped : Char → Char
  | '0' => '\x00'
  | 't' => '\t'
  | 'n' => '\n'
  | 'r' => '\r'
  | s => s

def codePoint : Decoder Char := do
  literal ['\\', 'u', '{']
  let digits ← taking (· != '}')
  literal ['}']
  return Char.ofNat (Text.ofHexDigits digits)

/-- A character in the form that it has between quotes. -/
def escaped : Decoder Char :=
  codePoint <|> (do
    literal ['\\']
    unescaped <$> anyChar) <|> anyChar

def quotedChar : Decoder Char := do
  literal ['\'']
  let s ← escaped
  literal ['\'']
  return s

theorem run_codePoint (s : Char) (w : List Char) :
    codePoint.run (Text.codePointEscape s ++ w) = some (s, w) := by
  rw [Text.codePointEscape, List.append_assoc, List.append_assoc, codePoint,
    run_bind (run_literal_append _ _), run_bind (run_taking_until (Text.brace_not_mem_toDigits _) w),
    run_bind (run_literal_append _ w), Text.ofHexDigits_toDigits, Char.ofNat_toNat]
  rfl

theorem run_escaped (s : Char) (w : List Char) :
    escaped.run (Text.escape '\'' s ++ w) = some (s, w) := by
  rw [Text.escape]
  split
  case isTrue hs => subst hs; rfl
  split
  case isTrue hs => subst hs; rfl
  split
  case isTrue hs => subst hs; rfl
  split
  case isTrue hs => subst hs; rfl
  split
  case isTrue hs => rcases hs with rfl | rfl <;> rfl
  case isFalse hsign =>
    split
    · exact run_orElse_of_some (run_codePoint s w)
    · have hs : '\\' ≠ s := fun heq => hsign (.inl heq.symm)
      have hcode : codePoint.run (s :: w) = none := run_literal_bind_eq_none hs
      rw [List.singleton_append, escaped, run_orElse_of_none hcode,
        run_orElse_of_none (run_literal_bind_eq_none hs)]
      rfl

end Decoder

theorem Text.toList_quotedChar (s : Char) :
    (quotedChar s).toList = ['\''] ++ (escape '\'' s ++ ['\'']) := by
  simp [quotedChar, quoted]

theorem Decodes.quotedChar (s : Char) :
    Decodes Decoder.quotedChar (Text.quotedChar s).toList s := by
  intro rest _
  rw [Text.toList_quotedChar, List.append_assoc, List.append_assoc, Decoder.quotedChar,
    Decoder.run_bind (Decoder.run_literal_append _ _), Decoder.run_bind (Decoder.run_escaped s _),
    Decoder.run_bind (Decoder.run_literal_append _ rest)]
  rfl

instance : Legible Char where
  decoder := Decoder.quotedChar
  decodes := Decodes.quotedChar
  opens s := ⟨'\'', _, Text.toList_quotedChar s, by decide⟩

end Descent
