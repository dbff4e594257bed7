import Mathlib.Data.List.Basic
import Mathlib.Logic.Function.Defs

/-!
# Phrases

Phrases are things that are written down as texts. Where the symbol behind a phrase is none that a
phrase can go on with, no phrase of the same kind reaches further, and none but this one reaches as
far. Kinds of phrases are put together from smaller ones, and keep this property. Texts are bounded
in length, so that phrases can be nested.
-/

namespace Descent

variable {σ α β : Type}

/-- The text does not go on with a symbol of `ext`. -/
def Stops (ext w : List σ) : Prop := ∀ s, w.head? = some s → s ∉ ext

theorem stops_nil (ext : List σ) : Stops ext [] := nofun

theorem stops_cons {ext : List σ} {s : σ} (h : s ∉ ext) (w : List σ) : Stops ext (s :: w) := by
  intro t ht
  cases ht
  exact h

theorem Stops.append {ext u w : List σ} (hu : Stops ext u) (hw : u = [] → Stops ext w) :
    Stops ext (u ++ w) := by
  cases u with
  | nil => exact hw rfl
  | cons s u => exact stops_cons (hu s rfl) _

theorem Stops.mono {ext ext' w : List σ} (h : Stops ext' w) (hext : ext ⊆ ext') : Stops ext w :=
  fun s hs hmem => h s hs (hext hmem)

/-- Every phrase begins with a symbol of `first`. -/
def Begins (print : α → List σ) (first : List σ) : Prop := ∀ x, ∃ s ∈ first, ∃ w, print x = s :: w

namespace Begins

variable {print : α → List σ} {print' : β → List σ} {first first' : List σ}

theorem ne_nil (h : Begins print first) (x : α) : print x ≠ [] := by
  obtain ⟨s, -, w, hx⟩ := h x
  rw [hx]
  exact List.cons_ne_nil s w

theorem stops {ext : List σ} (h : Begins print first) (hext : ∀ s ∈ first, s ∉ ext) (x : α) :
    Stops ext (print x) := by
  obtain ⟨s, hs, w, hx⟩ := h x
  rw [hx]
  exact stops_cons (hext s hs) w

theorem flatMap_stops {ext : List σ} (h : Begins print first) (hext : ∀ s ∈ first, s ∉ ext)
    (xs : List α) : Stops ext (xs.flatMap print) := by
  cases xs with
  | nil => exact stops_nil ext
  | cons x xs => exact (h.stops hext x).append fun hx => absurd hx (h.ne_nil x)

theorem not_stops (h : Begins print first) (ext : List σ) (x : α) (w : List σ) :
    ¬ Stops (ext ++ first) (print x ++ w) := by
  obtain ⟨s, hs, u, hx⟩ := h x
  intro hstops
  rw [hx] at hstops
  exact hstops s rfl (List.mem_append_right ext hs)

/-- Phrases of two kinds that begin with different symbols are not ahead at once. -/
theorem append_ne (h : Begins print first) (h' : Begins print' first')
    (hdiff : ∀ s ∈ first, s ∉ first') (x : α) (y : β) (z z' : List σ) :
    print x ++ z ≠ print' y ++ z' := by
  obtain ⟨s, hs, w, hx⟩ := h x
  obtain ⟨t, ht, w', hy⟩ := h' y
  rw [hx, hy]
  intro heq
  injection heq with hst
  exact hdiff s hs (hst ▸ ht)

end Begins

/-- In texts of less than `n` symbols, where no symbol of `ext` follows a phrase, no other phrase
goes as far. -/
def Delimited (print : α → List σ) (ext : List σ) (n : Nat) : Prop :=
  ∀ x x' z z', print x ++ z = print x' ++ z' → (print x ++ z).length < n → Stops ext z →
    z'.length ≤ z.length → x = x'

namespace Delimited

variable {print : α → List σ} {print' : β → List σ} {first first' ext ext' : List σ} {n : Nat}

theorem mono (h : Delimited print ext n) (hext : ext ⊆ ext') : Delimited print ext' n :=
  fun x x' z z' heq hlen hz hle => h x x' z z' heq hlen (hz.mono hext) hle

/-- Phrases that are written as phrases of another kind are. -/
theorem map (h : Delimited print ext n) {e : α → β} (he : Function.Surjective e)
    (hprint : ∀ x, print' (e x) = print x) : Delimited print' ext n := by
  intro y y' z z' heq hlen hz hle
  obtain ⟨x, rfl⟩ := he y
  obtain ⟨x', rfl⟩ := he y'
  rw [hprint, hprint] at heq
  rw [hprint] at hlen
  rw [h x x' z z' heq hlen hz hle]

theorem injective (h : ∀ n, Delimited print ext n) : Function.Injective print := by
  intro x x' heq
  exact h ((print x).length + 1) x x' [] [] (by rw [heq]) (by simp) (stops_nil ext) (Nat.le_refl _)

/-- Some of the phrases of a kind. -/
theorem subtype (h : Delimited print ext n) (P : α → Prop) :
    Delimited (fun x : { x // P x } => print x.val) ext n :=
  fun x x' z z' heq hlen hz hle => Subtype.ext (h x.val x'.val z z' heq hlen hz hle)

theorem singleton (n : Nat) : Delimited (fun s : σ => [s]) [] n := by
  intro s s' z z' heq _ _ _
  injection heq

/-- Where a phrase and a text `u` behind it reach at least as far as another phrase and a text, the
two phrases are the same, or there is nothing in `u`. -/
theorem exists_rest (h : Delimited print ext n) {x x' : α} {t u z : List σ}
    (heq : print x ++ t = print x' ++ (u ++ z)) (hlen : (print x ++ t).length < n)
    (hle : t.length ≤ (u ++ z).length) (hu : Stops ext u) :
    ∃ z', t = u ++ z' ∧ z'.length ≤ z.length := by
  by_cases hnil : u = []
  · subst hnil
    exact ⟨t, rfl, hle⟩
  · have hstops : Stops ext (u ++ z) := hu.append fun h => absurd h hnil
    obtain rfl := h x' x (u ++ z) t heq.symm (heq ▸ hlen) hstops hle
    exact ⟨z, List.append_cancel_left heq, Nat.le_refl _⟩

/-- Two phrases, each with a text behind it that does not go on with it, are the same if the texts
are followed alike. -/
theorem split (h : Delimited print ext n) {x x' : α} {u u' z z' : List σ}
    (heq : print x ++ (u ++ z) = print x' ++ (u' ++ z'))
    (hlen : (print x ++ (u ++ z)).length < n) (hu : Stops ext u) (hu' : Stops ext u')
    (hz : u = [] → Stops ext z) (hle : z'.length ≤ z.length) : x = x' ∧ u ++ z = u' ++ z' := by
  suffices hx : x = x' by
    subst hx
    exact ⟨rfl, List.append_cancel_left heq⟩
  rcases Nat.le_total (u' ++ z').length (u ++ z).length with hshort | hlong
  · exact h x x' _ _ heq hlen (hu.append hz) hshort
  · by_cases hnil : u' = []
    · subst hnil
      refine h x x' _ _ heq hlen (hu.append hz) ?_
      rw [List.nil_append, List.length_append]
      omega
    · have hstops : Stops ext (u' ++ z') := hu'.append fun h => absurd h hnil
      exact (h x' x _ _ heq.symm (heq ▸ hlen) hstops hlong).symm

theorem pair (h : Delimited print ext n) (h' : Delimited print' ext' n)
    (hstops : ∀ y, Stops ext (print' y)) :
    Delimited (fun x : α × β => print x.1 ++ print' x.2) (ext ++ ext') n := by
  rintro ⟨x, y⟩ ⟨x', y'⟩ z z' heq hlen hz hle
  simp only [List.append_assoc] at heq hlen
  obtain ⟨rfl, htail⟩ := h.split heq hlen (hstops y) (hstops y')
    (fun _ => hz.mono (List.subset_append_left _ _)) hle
  rw [List.length_append] at hlen
  rw [h' y y' z z' htail (by omega) (hz.mono (List.subset_append_right _ _)) hle]

/-- What cannot be missing has the last word. -/
theorem pair_of_begins (h : Delimited print ext n) (h' : Delimited print' ext' n)
    (hfirst : Begins print' first) (hext : ∀ s ∈ first, s ∉ ext) :
    Delimited (fun x : α × β => print x.1 ++ print' x.2) ext' n := by
  rintro ⟨x, y⟩ ⟨x', y'⟩ z z' heq hlen hz hle
  simp only [List.append_assoc] at heq hlen
  obtain ⟨rfl, htail⟩ := h.split heq hlen (hfirst.stops hext y) (hfirst.stops hext y')
    (fun hnil => absurd hnil (hfirst.ne_nil y)) hle
  rw [List.length_append] at hlen
  rw [h' y y' z z' htail (by omega) hz hle]

theorem sum (h : Delimited print ext n) (h' : Delimited print' ext' n)
    (hfirst : Begins print first) (hfirst' : Begins print' first')
    (hdiff : ∀ s ∈ first, s ∉ first') :
    Delimited (Sum.elim print print') (ext ++ ext') n := by
  rintro (x | y) (x' | y') z z' heq hlen hz hle
  · rw [h x x' z z' heq hlen (hz.mono (List.subset_append_left _ _)) hle]
  · exact absurd heq (hfirst.append_ne hfirst' hdiff x y' z z')
  · exact absurd heq.symm (hfirst.append_ne hfirst' hdiff x' y z' z)
  · rw [h' y y' z z' heq hlen (hz.mono (List.subset_append_right _ _)) hle]

theorem option (h : Delimited print ext n) (hfirst : Begins print first) :
    Delimited (fun o : Option α => o.elim [] print) (ext ++ first) n := by
  rintro (_ | x) (_ | x') z z' heq hlen hz hle
  · rfl
  · simp only [Option.elim, List.nil_append] at heq
    rw [heq] at hz
    exact absurd hz (hfirst.not_stops ext x' z')
  · have hpos := List.length_pos_iff.mpr (hfirst.ne_nil x)
    have hlength := congrArg List.length heq
    simp only [Option.elim, List.length_append, List.length_nil] at hlength
    omega
  · rw [h x x' z z' heq hlen (hz.mono (List.subset_append_left _ _)) hle]

theorem list (h : Delimited print ext n) (hfirst : Begins print first)
    (hext : ∀ s ∈ first, s ∉ ext) :
    Delimited (fun xs : List α => xs.flatMap print) (ext ++ first) n := by
  intro xs
  induction xs with
  | nil =>
    rintro (_ | ⟨x', xs'⟩) z z' heq hlen hz hle
    · rfl
    · simp only [List.flatMap_nil, List.flatMap_cons, List.nil_append, List.append_assoc] at heq
      rw [heq] at hz
      exact absurd hz (hfirst.not_stops ext x' _)
  | cons x xs ih =>
    rintro (_ | ⟨x', xs'⟩) z z' heq hlen hz hle
    · have hpos := List.length_pos_iff.mpr (hfirst.ne_nil x)
      have hlength := congrArg List.length heq
      simp only [List.flatMap_cons, List.flatMap_nil, List.length_append, List.length_nil]
        at hlength
      omega
    · simp only [List.flatMap_cons, List.append_assoc] at heq hlen
      obtain ⟨rfl, htail⟩ := h.split heq hlen (hfirst.flatMap_stops hext xs)
        (hfirst.flatMap_stops hext xs') (fun _ => hz.mono (List.subset_append_left _ _)) hle
      have hlt : (xs.flatMap print ++ z).length < n := by
        rw [List.length_append] at hlen
        omega
      rw [ih xs' z z' htail hlt hz hle]

theorem bracketed (h : Delimited print ext n) (opening : σ) {closing : σ} (hext : closing ∉ ext) :
    Delimited (fun x => opening :: print x ++ [closing]) [] (n + 1) := by
  intro x x' z z' heq hlen _ hle
  simp only [List.cons_append, List.append_assoc, List.nil_append] at heq hlen
  injection heq with _ hinner
  refine h x x' _ _ hinner ?_ (stops_cons hext z) ?_
  · simpa using hlen
  · simpa using hle

end Delimited

end Descent
