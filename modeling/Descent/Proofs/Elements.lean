import Descent.Cursor.Slice

/-!
# Walks over elements

From any start, in the data or not, a slice cursor goes from index to index and ends with the step
that leaves the data, the first one at the earliest. From the start of the data it shows the
elements one after another, and has one form at each place.
-/

namespace Descent.SliceCursor

open Cursor (advanceBy)

variable {σ : Type} (data : Array σ)

theorem remaining_eq_drop_position (c : SliceCursor σ) :
    Cursor.remaining c = (SourcedCursor.source c).toList.drop (Cursor.position c) := by
  cases c with
  | reading => rfl
  | ended data =>
    have hle : data.toList.length ≤ data.size := Nat.le_of_eq Array.length_toList
    exact (List.drop_eq_nil_of_le hle).symm

theorem advance_reading (index : Nat) :
    Cursor.advance (reading data index) =
      if index + 1 < data.size then reading data (index + 1) else ended data := by
  simp only [Cursor.advance, advance, ← Nat.not_lt, ite_not]

theorem advanceBy_ended (k : Nat) : advanceBy k (ended data) = ended data := by
  induction k with
  | zero => rfl
  | succ k ih => exact ih

/-- By induction on the steps. After a step that ends the cursor all further ones leave it there. -/
theorem advanceBy_reading (start k : Nat) :
    advanceBy (k + 1) (reading data start) =
      if start + (k + 1) < data.size then reading data (start + (k + 1)) else ended data := by
  induction k generalizing start with
  | zero => exact advance_reading data start
  | succ k ih =>
    rw [advanceBy, advance_reading]
    by_cases h : start + 1 < data.size
    · rw [if_pos h, ih, Nat.add_right_comm start 1, Nat.add_assoc start]
    · rw [if_neg h, advanceBy_ended, if_neg (by omega)]

theorem advanceBy_ofArray (k : Nat) :
    advanceBy k (ofArray data) = if k < data.size then reading data k else ended data := by
  by_cases hempty : data.isEmpty
  · rw [ofArray, if_pos hempty, advanceBy_ended, if_neg (by simp [Array.isEmpty_iff.mp hempty])]
  · have hpos : 0 < data.size := by simpa [Array.size_pos_iff] using hempty
    rw [ofArray, if_neg hempty]
    cases k with
    | zero =>
      rw [if_pos hpos]
      rfl
    | succ k => rw [advanceBy_reading, Nat.zero_add]

variable {data}

/-- As long as it has not ended, a cursor is at the index that its start and its steps add up to. -/
theorem index_eq_of_advanceBy {start k index : Nat}
    (h : advanceBy k (reading data start) = reading data index) : index = start + k := by
  cases k with
  | zero =>
    injection h with _ hindex
    exact hindex.symm
  | succ k =>
    rw [advanceBy_reading] at h
    split at h
    · injection h with _ hindex
      exact hindex.symm
    · cases h

theorem advanceBy_reading_eq_ended_iff (start k : Nat) :
    advanceBy k (reading data start) = ended data ↔ max 1 (data.size - start) ≤ k := by
  cases k with
  | zero =>
    constructor
    · intro h
      cases h
    · intro h
      omega
  | succ k =>
    rw [advanceBy_reading]
    by_cases h : start + (k + 1) < data.size
    · rw [if_pos h]
      constructor
      · intro h
        cases h
      · intro h
        omega
    · rw [if_neg h]
      exact ⟨fun _ => by omega, fun _ => rfl⟩

/-- The one form of a cursor that has gone past `k` elements of its data, or past all of them when
there are fewer. -/
structure Stands (data : Array σ) (k : Nat) (c : SliceCursor σ) : Prop where
  source_eq : SourcedCursor.source c = data
  isReading_eq : c.isReading = !Cursor.isExhausted c
  position_eq : Cursor.position c = min k data.size
  current_eq : Cursor.current c = data[k]?

theorem stands_advanceBy_ofArray (k : Nat) : Stands data k (advanceBy k (ofArray data)) := by
  rw [advanceBy_ofArray]
  by_cases h : k < data.size
  · rw [if_pos h]
    refine ⟨rfl, ?_, (Nat.min_eq_left (Nat.le_of_lt h)).symm, rfl⟩
    simp [isReading, Cursor.isExhausted, Cursor.current, current, h]
  · rw [if_neg h]
    have hle := Nat.not_lt.mp h
    exact ⟨rfl, rfl, (Nat.min_eq_right hle).symm, (Array.getElem?_eq_none hle).symm⟩

namespace Stands

variable {k : Nat} {c : SliceCursor σ}

/-- The position alone tells which cursor it is. -/
theorem eq_ite (h : Stands data k c) :
    c = if Cursor.position c < data.size then reading data (Cursor.position c) else ended data := by
  cases c with
  | reading data' index =>
    obtain rfl : data' = data := h.source_eq
    have hlt : index < data'.size := by
      simpa [isReading, Cursor.isExhausted, Cursor.current, current] using h.isReading_eq
    exact (if_pos hlt).symm
  | ended data' =>
    obtain rfl : data' = data := h.source_eq
    exact (if_neg (Nat.lt_irrefl _)).symm

theorem eq_iff_position {k' : Nat} {c' : SliceCursor σ} (h : Stands data k c)
    (h' : Stands data k' c') : c = c' ↔ Cursor.position c = Cursor.position c' := by
  refine ⟨congrArg Cursor.position, fun hposition => ?_⟩
  rw [h.eq_ite, h'.eq_ite, hposition]

end Stands

/-- Over one array that is equal to itself, equal cursors are the same. -/
theorem beq_iff_eq_of_source [BEq σ] {c c' : SliceCursor σ}
    (hsource : SourcedCursor.source c = SourcedCursor.source c')
    (hself : (SourcedCursor.source c == SourcedCursor.source c) = true) :
    (c == c') = true ↔ c = c' := by
  cases c with
  | reading data index =>
    cases c' with
    | reading data' index' =>
      obtain rfl : data = data' := hsource
      have hbeq : (reading data index == reading data index') = (data == data && index == index') :=
        rfl
      have hdata : (data == data) = true := hself
      rw [hbeq, hdata, Bool.true_and, beq_iff_eq, reading.injEq]
      exact (and_iff_right rfl).symm
    | ended data' => exact iff_of_false Bool.false_ne_true (fun h => by cases h)
  | ended data =>
    cases c' with
    | reading data' index' => exact iff_of_false Bool.false_ne_true (fun h => by cases h)
    | ended data' =>
      obtain rfl : data = data' := hsource
      exact iff_of_true hself rfl

/-- From any start the index grows by one with each step until the data ends, and the end stays.
From the start of the data step `k` comes to element `k`, and where symbols are equal to themselves,
no two cursors on the way are equal but those at one position. -/
theorem reading_walks [BEq σ] (data : Array σ) :
    (∀ start k, 1 ≤ k → start + k < UInt64.size →
      advanceBy k (reading data start) =
        (if start + k < data.size then reading data (start + k) else ended data) ∧
      (advanceBy k (reading data start) = ended data ↔ max 1 (data.size - start) ≤ k) ∧
      -- No index on the way is too large for a machine word.
      ∀ j < k, ∀ index, advanceBy j (reading data start) = reading data index →
        index + 1 < UInt64.size) ∧
    (∀ k, advanceBy k (ended data) = ended data) ∧
    (∀ c : SliceCursor σ, Cursor.current c = (Cursor.remaining c).head? ∧
      Cursor.remaining c = (SourcedCursor.source c).toList.drop (Cursor.position c)) ∧
    (∀ k, Stands data k (advanceBy k (ofArray data))) ∧
    ((∀ s : σ, (s == s) = true) → ∀ j k,
      ((advanceBy j (ofArray data) == advanceBy k (ofArray data)) = true ↔
        Cursor.position (advanceBy j (ofArray data)) =
          Cursor.position (advanceBy k (ofArray data)))) := by
  refine ⟨fun start k hk hbound => ⟨?_, advanceBy_reading_eq_ended_iff start k, ?_⟩,
    advanceBy_ended data, fun c => ?_, stands_advanceBy_ofArray, fun hrefl j k => ?_⟩
  · obtain ⟨k, rfl⟩ := Nat.exists_eq_add_of_le' hk
    exact advanceBy_reading data start k
  · intro j hj index h
    have hindex := index_eq_of_advanceBy h
    omega
  · exact ⟨LawfulCursor.current_eq_head? c, remaining_eq_drop_position c⟩
  · have : ReflBEq σ := ⟨hrefl _⟩
    have hj : Stands data j (advanceBy j (ofArray data)) := stands_advanceBy_ofArray j
    have hk : Stands data k (advanceBy k (ofArray data)) := stands_advanceBy_ofArray k
    rw [beq_iff_eq_of_source (hj.source_eq.trans hk.source_eq.symm) BEq.rfl, hj.eq_iff_position hk]

def threeLetters : Array Char := #['a', 'b', 'c']

/-- Two steps from inside the data lead to its end, and so does one step from beyond it. -/
theorem threeLetters_walk :
    (1 ≤ 2 ∧ 1 + 2 < UInt64.size ∧ advanceBy 2 (reading threeLetters 1) = ended threeLetters) ∧
    (1 ≤ 1 ∧ 7 + 1 < UInt64.size ∧ advanceBy 1 (reading threeLetters 7) = ended threeLetters) ∧
    (∀ s : Char, (s == s) = true) ∧
    (advanceBy 3 (ofArray threeLetters) == advanceBy 4 (ofArray threeLetters)) = true := by
  obtain ⟨hreading, -, -, -, hequal⟩ := reading_walks threeLetters
  have hrefl : ∀ s : Char, (s == s) = true := fun s => beq_self_eq_true s
  exact ⟨⟨by decide, by decide, (hreading 1 2 (by decide) (by decide)).1⟩,
    ⟨by decide, by decide, (hreading 7 1 (by decide) (by decide)).1⟩, hrefl,
    (hequal hrefl 3 4).mpr rfl⟩

end Descent.SliceCursor
