import Mathlib.Data.List.Basic

/-!
# Decoding texts

A decoder reads a value off the front of a text and leaves the rest. Texts are put together from the
texts of parts, which a comma or a closing bracket follows if anything does. Decoders that tell the
parts from their texts are put together alike.
-/

namespace Descent

variable {α β : Type}

/-- Reads a value off the front of a text, if it can, and leaves what is behind it. -/
abbrev Decoder (α : Type) : Type := StateT (List Char) Option α

namespace Decoder

def literal (t : List Char) : Decoder Unit := fun w => (w.dropPrefix? t).map ((), ·)

/-- The longest text of such characters ahead. -/
def taking (passes : Char → Bool) : Decoder (List Char) :=
  fun w => some (w.takeWhile passes, w.dropWhile passes)

def number : Decoder Nat := (Nat.ofDigitChars 10 · 0) <$> taking Char.isDigit

def integer : Decoder Int :=
  (do
    literal ['-']
    (fun n => -(n : Int)) <$> number) <|> Int.ofNat <$> number

/-- A part and the closing bracket. -/
def closed (d : Decoder α) : Decoder α := do
  let x ← d
  literal [']']
  return x

/-- All that is ahead up to a closing bracket, and the bracket. -/
def name : Decoder String := do
  let w ← taking (· != ']')
  literal [']']
  return String.ofList w

/-- Two parts with a comma in between. -/
def comma (d : Decoder α) (d' : Decoder β) : Decoder (α × β) := do
  let x ← d
  literal [',', ' ']
  (x, ·) <$> d'

/-- One or more parts with commas in between, no more than the bound, and the closing bracket. -/
def items (d : Decoder α) : Nat → Decoder (List α)
  | 0 => failure
  | bound + 1 => do
    let x ← d
    (do
      literal [']']
      return [x]) <|> do
      literal [',', ' ']
      (x :: ·) <$> items d bound

/-- Parts with commas in between, and the closing bracket. -/
def list (d : Decoder α) : Decoder (List α) :=
  (do
    literal [']']
    return []) <|> do
    let w ← get
    items d (w.length + 1)

theorem run_literal_append (t w : List Char) : (literal t).run (t ++ w) = some ((), w) := by
  show ((t ++ w).dropPrefix? t).map _ = _
  rw [List.dropPrefix?_append_of_beq w (beq_self_eq_true t), Option.map_some]

theorem run_literal_eq_none {t w : List Char} (h : ¬ t <+: w) : (literal t).run w = none := by
  show (w.dropPrefix? t).map _ = _
  rw [Option.map_eq_none_iff, Option.eq_none_iff_forall_ne_some]
  intro rest heq
  obtain ⟨t', rfl, ht⟩ := List.dropPrefix?_eq_some_iff.mp heq
  rw [beq_iff_eq] at ht
  exact h ⟨rest, by rw [ht]⟩

theorem run_bind {d : Decoder α} {f : α → Decoder β} {w rest : List Char} {x : α}
    (h : d.run w = some (x, rest)) : (d >>= f).run w = (f x).run rest := by
  rw [StateT.run_bind, h]
  rfl

theorem run_orElse_of_some {d d' : Decoder α} {w rest : List Char} {x : α}
    (h : d.run w = some (x, rest)) : (d <|> d').run w = some (x, rest) := by
  show (d.run w).orElse _ = _
  rw [h]
  rfl

theorem run_orElse_of_none {d d' : Decoder α} {w : List Char} (h : d.run w = none) :
    (d <|> d').run w = d'.run w := by
  show (d.run w).orElse _ = _
  rw [h]
  rfl

/-- What does not begin with the literal is not read. -/
theorem run_literal_bind_eq_none {d : Decoder α} {s s' : Char} {t w : List Char} (h : s ≠ s') :
    (do
      literal (s :: t)
      d).run (s' :: w) = none := by
  have hfails : (literal (s :: t)).run (s' :: w) = none :=
    run_literal_eq_none fun hprefix => h (List.cons_prefix_cons.mp hprefix).1
  rw [StateT.run_bind, hfails]
  rfl

theorem run_taking_append {passes : Char → Bool} {u rest : List Char}
    (hu : ∀ s ∈ u, passes s = true) (hrest : ∀ s, rest.head? = some s → passes s = false) :
    (taking passes).run (u ++ rest) = some (u, rest) := by
  have hstops : rest.takeWhile passes = [] ∧ rest.dropWhile passes = rest := by
    cases rest with
    | nil => exact ⟨rfl, rfl⟩
    | cons s rest => simp [hrest s rfl]
  show some ((u ++ rest).takeWhile passes, (u ++ rest).dropWhile passes) = _
  rw [List.takeWhile_append_of_pos hu, List.dropWhile_append_of_pos hu, hstops.1, hstops.2,
    List.append_nil]

theorem run_taking_until {stop : Char} {u : List Char} (hu : stop ∉ u) (rest : List Char) :
    (taking (· != stop)).run (u ++ ([stop] ++ rest)) = some (u, [stop] ++ rest) := by
  refine run_taking_append (fun s hs => ?_) fun s hs => ?_
  · exact bne_iff_ne.mpr fun heq => hu (heq ▸ hs)
  · cases hs
    exact bne_self_eq_false stop

end Decoder

/-- Nothing is ahead, or what comes behind a part. -/
def Closes (w : List Char) : Prop := ∀ s, w.head? = some s → s = ',' ∨ s = ']'

theorem closes_nil : Closes [] := nofun

theorem closes_comma (w : List Char) : Closes (',' :: w) := by
  intro s hs
  cases hs
  exact .inl rfl

theorem closes_bracket (w : List Char) : Closes (']' :: w) := by
  intro s hs
  cases hs
  exact .inr rfl

/-- The text begins, and not with a closing bracket. -/
def Opens (w : List Char) : Prop := ∃ s u, w = s :: u ∧ s ≠ ']'

/-- The decoder takes the text for the value, if what is behind it is as behind a part. -/
def Decodes (d : Decoder α) (w : List Char) (x : α) : Prop :=
  ∀ rest, Closes rest → d.run (w ++ rest) = some (x, rest)

/-- Texts with commas in between, and the closing bracket. -/
def joined (us : List (List Char)) : List Char := [',', ' '].intercalate us ++ [']']

theorem joined_singleton (u : List Char) : joined [u] = u ++ [']'] := by
  rw [joined, List.intercalate_singleton]

theorem joined_cons_cons (u u' : List Char) (us : List (List Char)) :
    joined (u :: u' :: us) = u ++ ([',', ' '] ++ joined (u' :: us)) := by
  rw [joined, joined, List.intercalate_cons_cons, List.append_assoc, List.append_assoc]

theorem exists_joined_cons_eq_append (u : List Char) (us : List (List Char)) :
    ∃ v, joined (u :: us) = u ++ v := by
  cases us with
  | nil => exact ⟨_, joined_singleton u⟩
  | cons u' us => exact ⟨_, joined_cons_cons u u' us⟩

theorem length_le_joined (us : List (List Char)) : us.length ≤ (joined us).length := by
  induction us with
  | nil => exact Nat.zero_le _
  | cons u us ih =>
    cases us with
    | nil => simp [joined_singleton]
    | cons u' us =>
      rw [joined_cons_cons]
      simp only [List.length_append, List.length_cons] at ih ⊢
      omega

theorem length_lt_joined {u : List Char} {us : List (List Char)} (h : u ∈ us) :
    u.length < (joined us).length := by
  induction us with
  | nil => cases h
  | cons u' us ih =>
    cases us with
    | nil => simp [joined_singleton, List.mem_singleton.mp h]
    | cons u'' us =>
      rw [joined_cons_cons]
      simp only [List.length_append, List.length_cons]
      rcases List.mem_cons.mp h with rfl | h
      · omega
      · have hlt := ih h
        omega

namespace Decodes

open Decoder

variable {d d₁ d₂ : Decoder α} {d' : Decoder β} {w w' : List Char} {x : α} {y : β}

theorem pure (x : α) : Decodes (pure x) [] x := fun _ _ => rfl

theorem map (h : Decodes d w x) (f : α → β) : Decodes (f <$> d) w (f x) := by
  intro rest hrest
  rw [StateT.run_map, h rest hrest]
  rfl

theorem bind {f : α → Decoder β} (h : Decodes d w x) (hw' : ∀ rest, Closes (w' ++ rest))
    (h' : Decodes (f x) w' y) : Decodes (d >>= f) (w ++ w') y := by
  intro rest hrest
  rw [List.append_assoc, run_bind (h _ (hw' rest))]
  exact h' rest hrest

theorem literal_bind (t : List Char) (h : Decodes d w x) :
    Decodes (do
      literal t
      d) (t ++ w) x := by
  intro rest hrest
  rw [List.append_assoc, run_bind (run_literal_append t _)]
  exact h rest hrest

theorem orElse_left (h : Decodes d₁ w x) : Decodes (d₁ <|> d₂) w x :=
  fun rest hrest => run_orElse_of_some (h rest hrest)

theorem orElse_right (h : Decodes d₂ w x) (hnone : ∀ rest, d₁.run (w ++ rest) = none) :
    Decodes (d₁ <|> d₂) w x :=
  fun rest hrest => (run_orElse_of_none (hnone rest)).trans (h rest hrest)

theorem taking {passes : Char → Bool} (hw : ∀ s ∈ w, passes s = true)
    (hcomma : passes ',' = false) (hbracket : passes ']' = false) :
    Decodes (taking passes) w w := by
  intro rest hrest
  refine run_taking_append hw fun s hs => ?_
  rcases hrest s hs with rfl | rfl
  · exact hcomma
  · exact hbracket

theorem number (n : Nat) : Decodes number n.repr.toList n := by
  have hdigits : Decodes (Decoder.taking Char.isDigit) (Nat.toDigits 10 n) (Nat.toDigits 10 n) :=
    taking (fun s hs => Nat.isDigit_of_mem_toDigits (by decide) (by decide) hs) rfl rfl
  have hnumber := hdigits.map (Nat.ofDigitChars 10 · 0)
  rwa [Nat.ofDigitChars_ten_toDigits, ← Nat.toList_repr] at hnumber

/-- A number begins with a digit. -/
theorem repr_eq_cons (n : Nat) : ∃ s u, n.repr.toList = s :: u ∧ s.isDigit = true := by
  rw [Nat.toList_repr]
  obtain ⟨s, u, hs⟩ := List.exists_cons_of_ne_nil (Nat.toDigits_ne_nil (n := n) (b := 10))
  have hmem : s ∈ Nat.toDigits 10 n := by
    rw [hs]
    exact List.mem_cons_self
  exact ⟨s, u, hs, Nat.isDigit_of_mem_toDigits (by decide) (by decide) hmem⟩

theorem integer (i : Int) : Decodes integer i.repr.toList i := by
  rw [Int.repr_eq_if]
  split
  case isTrue hi =>
    have hnumber := (number i.toNat).map Int.ofNat
    rw [Int.ofNat_eq_natCast, Int.toNat_of_nonneg hi] at hnumber
    refine hnumber.orElse_right fun rest => ?_
    obtain ⟨s, u, hs, hdigit⟩ := repr_eq_cons i.toNat
    rw [hs]
    refine run_literal_bind_eq_none ?_
    rintro rfl
    cases hdigit
  case isFalse hi =>
    have hnumber := (number (-i).toNat).map fun n => -(n : Int)
    rw [Int.toNat_of_nonneg (by omega), Int.neg_neg] at hnumber
    rw [String.toList_append]
    exact (hnumber.literal_bind ['-']).orElse_left

theorem closed (h : Decodes d w x) : Decodes (closed d) (w ++ [']']) x :=
  h.bind (fun _ => closes_bracket _) ((pure x).literal_bind [']'])

/-- A comma does not end a name. -/
theorem name {t : String} (ht : ']' ∉ t.toList) : Decodes name (t.toList ++ [']']) t := by
  intro rest _
  rw [List.append_assoc, Decoder.name, run_bind (run_taking_until ht rest),
    run_bind (run_literal_append _ rest), String.ofList_toList]
  rfl

theorem comma (h : Decodes d w x) (h' : Decodes d' w' y) :
    Decodes (comma d d') (w ++ ([',', ' '] ++ w')) (x, y) :=
  h.bind (fun _ => closes_comma _) ((h'.map (x, ·)).literal_bind [',', ' '])

theorem items {text : α → List Char} {xs : List α} {bound : Nat} (hbound : xs.length ≤ bound)
    (h : ∀ y ∈ x :: xs, Decodes d (text y) y) :
    Decodes (items d (bound + 1)) (joined ((x :: xs).map text)) (x :: xs) := by
  induction xs generalizing x bound with
  | nil =>
    rw [List.map_singleton, joined_singleton]
    exact (h x List.mem_cons_self).bind (fun _ => closes_bracket _)
      ((pure [x]).literal_bind [']']).orElse_left
  | cons z xs ih =>
    cases bound with
    | zero => cases hbound
    | succ bound =>
      have hrow := ih (Nat.le_of_succ_le_succ hbound) fun y hy => h y (List.mem_cons_of_mem x hy)
      rw [List.map_cons, List.map_cons, joined_cons_cons, ← List.map_cons]
      exact (h x List.mem_cons_self).bind (fun _ => closes_comma _)
        (((hrow.map (x :: ·)).literal_bind [',', ' ']).orElse_right
          fun _ => run_literal_bind_eq_none (by decide))

/-- Where a bracket is ahead there are no parts, since none begins with it. -/
theorem list {text : α → List Char} {xs : List α} (h : ∀ x ∈ xs, Decodes d (text x) x)
    (hopens : ∀ x ∈ xs, Opens (text x)) : Decodes (list d) (joined (xs.map text)) xs := by
  cases xs with
  | nil => exact ((pure []).literal_bind [']']).orElse_left
  | cons x xs =>
    have hlength := length_le_joined ((x :: xs).map text)
    rw [List.length_map, List.length_cons] at hlength
    have hitems : Decodes (do
        let w ← get
        Decoder.items d (w.length + 1)) (joined ((x :: xs).map text)) (x :: xs) := by
      intro rest hrest
      refine items ?_ h rest hrest
      rw [List.length_append]
      omega
    refine hitems.orElse_right fun rest => ?_
    obtain ⟨v, hv⟩ := exists_joined_cons_eq_append (text x) (xs.map text)
    obtain ⟨s, u, hs, hne⟩ := hopens x List.mem_cons_self
    rw [List.map_cons, hv, hs]
    exact run_literal_bind_eq_none hne.symm

end Decodes

end Descent
