/-!
# Bytes of texts

Texts are ordered by their code points. Their bytes in UTF-8 are in the same order: where two texts
first differ, so do the encodings of the two characters, with the smaller byte in the encoding of
the smaller character.
-/

namespace Descent.Text

/-- The bytes of a text in UTF-8. -/
def bytes (s : String) : List UInt8 := s.toUTF8.data.toList

theorem bytes_eq_flatMap (s : String) : bytes s = s.toList.flatMap String.utf8EncodeChar := by
  rw [bytes, String.toUTF8, ← String.utf8Encode_toList, List.utf8Encode,
    List.toList_data_toByteArray]

/-- A smaller number has the smaller digit in the first place where the digits differ. -/
private theorem digits_lt {v w : Nat} (h : v < w) :
    v / 262144 < w / 262144 ∨ v / 262144 = w / 262144 ∧
      (v / 4096 % 64 < w / 4096 % 64 ∨ v / 4096 % 64 = w / 4096 % 64 ∧
        (v / 64 % 64 < w / 64 % 64 ∨ v / 64 % 64 = w / 64 % 64 ∧ v % 64 < w % 64)) := by
  omega

/-- No encoding is the beginning of another one, and they are in the order of the characters. -/
theorem encode_append_lt {c d : Char} (h : c < d) (x y : List UInt8) :
    String.utf8EncodeChar c ++ x < String.utf8EncodeChar d ++ y := by
  have hlt : c.val.toNat < d.val.toNat := h
  have hd : d.val.toNat < 0x110000 := by
    rcases d.valid with hd | hd <;> omega
  simp only [String.utf8EncodeChar]
  generalize c.val.toNat = v at *
  generalize d.val.toNat = w at *
  have hdigits := digits_lt hlt
  -- One case for each pair of lengths. The first byte tells lengths apart.
  repeat' split
  all_goals
    simp (disch := omega) only [List.cons_append, List.nil_append, List.cons_lt_cons_iff,
      UInt8.lt_iff_toNat_lt, ← UInt8.toNat_inj, UInt8.toNat_ofNat', Nat.mod_eq_of_lt]
    omega

theorem bytes_lt_bytes {s t : String} (h : s < t) : bytes s < bytes t := by
  change s.toList < t.toList at h
  rw [bytes_eq_flatMap, bytes_eq_flatMap]
  generalize s.toList = cs at h ⊢
  generalize t.toList = ds at h ⊢
  induction h with
  | @nil d ds =>
    obtain ⟨b, bs, hbytes⟩ := List.exists_cons_of_length_pos (l := String.utf8EncodeChar d) (by
      rw [String.length_utf8EncodeChar]
      exact Char.utf8Size_pos d)
    rw [List.flatMap_cons, hbytes]
    exact List.nil_lt_cons b _
  | cons _ ih => exact List.append_left_lt ih
  | rel hcd => exact encode_append_lt hcd _ _

end Descent.Text
