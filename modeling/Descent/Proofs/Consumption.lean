import Descent.Cursor.Slice
import Descent.Grammar.Brackets
import Descent.Proofs.Postcondition

/-!
# What a match reads

A match leaves the cursor some steps further on, each from a symbol, and a match that reads nothing
comes from a nullable parser. Repetitions take part in this with their minimum alone: a repetition
never keeps a match that reads nothing, so whatever it collects has read something.
-/

namespace Descent

open Cursor (Reaches)

variable {γ σ δ α β : Type}

/-- The parsers that can match without reading. -/
inductive Nullable (r : Registry σ δ) : Parser σ δ → Prop
  | endOfInput (value : Value σ δ) : Nullable r (.endOfInput value)
  | sequence {ps : List (Parser σ δ)} : (∀ p ∈ ps, Nullable r p) → Nullable r (.sequence ps)
  | select {ps : List (Parser σ δ)} (index : Nat) :
      (∀ p ∈ ps, Nullable r p) → Nullable r (.select ps index)
  | pair {p q : Parser σ δ} : Nullable r p → Nullable r q → Nullable r (.pair p q)
  | choice {ps : List (Parser σ δ)} {p : Parser σ δ} :
      p ∈ ps → Nullable r p → Nullable r (.choice ps)
  | optional (p : Parser σ δ) : Nullable r (.optional p)
  | optionalOr (p : Parser σ δ) (sentinel : Value σ δ) : Nullable r (.optionalOr p sentinel)
  | many (p : Parser σ δ) : Nullable r (.many p 0)
  | action {p : Parser σ δ} (f : Value σ δ → Value σ δ) :
      Nullable r p → Nullable r (.action p f)
  | reference {g : GrammarId} {name : String} {body : Parser σ δ} :
      r.resolve g name = .ok body → Nullable r body → Nullable r (.reference g name)

namespace Recognizer

/-- Matches only move ahead, and those that read nothing need `P`. -/
def ReadsUnless [Cursor γ σ] (P : Prop) (p : Recognizer γ α) : Prop :=
  ∀ c value rest, (p c).result? = some (.ok (.success value rest)) →
    ∃ k, Reaches k c rest ∧ (k = 0 → P)

namespace ReadsUnless

variable [Cursor γ σ] {P Q : Prop} {p : Recognizer γ α}

theorem iff_ensures :
    ReadsUnless P p ↔ Ensures (fun c _ rest => ∃ k, Reaches k c rest ∧ (k = 0 → P)) p := .rfl

theorem mono (h : ReadsUnless P p) (hPQ : P → Q) : ReadsUnless Q p := by
  refine iff_ensures.mpr ((iff_ensures.mp h).mono ?_)
  intro c value rest hread
  obtain ⟨k, hk, hP⟩ := hread
  exact ⟨k, hk, fun hk0 => hPQ (hP hk0)⟩

theorem succeed (value : α) : ReadsUnless True (Recognizer.succeed (γ := γ) value) :=
  iff_ensures.mpr (Ensures.succeed fun c => ⟨0, .zero c, fun _ => trivial⟩)

theorem action (h : ReadsUnless P p) (f : α → β) : ReadsUnless P (p.action f) :=
  iff_ensures.mpr ((iff_ensures.mp h).action fun _ _ _ hread => hread)

theorem optionalOr (h : ReadsUnless P p) (absent : α) :
    ReadsUnless True (p.optionalOr absent) :=
  iff_ensures.mpr ((iff_ensures.mp (h.mono fun _ => trivial)).optionalOr
    fun c => ⟨0, .zero c, fun _ => trivial⟩)

theorem endOfInput (value : α) :
    ReadsUnless True (Recognizer.endOfInput (γ := γ) value) :=
  iff_ensures.mpr (Ensures.endOfInput fun c _ => ⟨0, .zero c, fun _ => trivial⟩)

theorem choice {ι : Type} {run : ι → Recognizer γ α} {P : ι → Prop} {is : List ι}
    (h : ∀ i ∈ is, ReadsUnless (P i) (run i)) :
    ReadsUnless (∃ i ∈ is, P i) (Recognizer.choice (is.map run)) := by
  apply iff_ensures.mpr (Ensures.choice _)
  intro p hp
  obtain ⟨i, hi, rfl⟩ := List.mem_map.mp hp
  exact (h i hi).mono fun hPi => ⟨i, hi, hPi⟩

variable [LawfulCursor γ]

/-- Matches that read a symbol make progress. -/
theorem progresses (h : ReadsUnless False p) : Progresses p := by
  intro c value rest hp
  obtain ⟨k, hk, hread⟩ := h c value rest hp
  exact mt hk.position_eq_iff.mp hread

theorem anySymbol : ReadsUnless False (Recognizer.anySymbol (γ := γ)) :=
  iff_ensures.mpr (Ensures.anySymbol fun _ s hs => ⟨1, .one (by simp [hs]), by simp⟩)

theorem oneOf [BEq σ] (symbols : List σ) :
    ReadsUnless False (Recognizer.oneOf (γ := γ) symbols) :=
  iff_ensures.mpr (Ensures.oneOf fun _ s hs _ => ⟨1, .one (by simp [hs]), by simp⟩)

theorem andThen {next : α → Recognizer γ β} (h : ReadsUnless P p)
    (hnext : ∀ a, ReadsUnless Q (next a)) : ReadsUnless (P ∧ Q) (p.andThen next) := by
  intro c value rest hp
  obtain ⟨first, middle, hfirst, hrest⟩ := andThen_success_iff.mp hp
  obtain ⟨j, hj, hP⟩ := h c first middle hfirst
  obtain ⟨k, hk, hQ⟩ := hnext first middle value rest hrest
  exact ⟨j + k, hj.trans hk, fun h0 => ⟨hP (by omega), hQ (by omega)⟩⟩

theorem sequence {ι : Type} {run : ι → Recognizer γ α} {P : ι → Prop} {is : List ι}
    (h : ∀ i ∈ is, ReadsUnless (P i) (run i)) :
    ReadsUnless (∀ i ∈ is, P i) (Recognizer.sequence (is.map run)) := by
  induction is with
  | nil => exact (succeed []).mono fun _ => by simp
  | cons i is ih =>
    have hi := h i List.mem_cons_self
    have his := ih fun j hj => h j (List.mem_cons_of_mem i hj)
    apply (hi.andThen fun a => his.action (a :: ·)).mono
    intro hP
    exact List.forall_mem_cons.mpr hP

theorem select {ι : Type} {run : ι → Recognizer γ α} {P : ι → Prop} {is : List ι}
    (h : ∀ i ∈ is, ReadsUnless (P i) (run i)) (index : Nat) :
    ReadsUnless (∀ i ∈ is, P i) (Recognizer.select (is.map run) index) := by
  refine ((sequence h).andThen (Q := True) fun values => ?_).mono And.left
  split
  · exact succeed _
  · intro c value rest hfail
    cases hfail

/-- Every match in a row has read at least one symbol. -/
theorem collects : Collects (γ := γ) (α := α)
    (fun c _ rest => (∃ k, Reaches k c rest ∧ (k = 0 → P)) ∧
      Cursor.position rest ≠ Cursor.position c)
    (fun c values rest => ∃ k, Reaches k c rest ∧ values.length ≤ k) where
  nil c := ⟨0, .zero c, Nat.le_refl 0⟩
  cons := by
    intro c middle rest value values hmatch htail
    obtain ⟨⟨j, hj, -⟩, hpos⟩ := hmatch
    obtain ⟨k, hk, hlen⟩ := htail
    have hj0 := mt hj.position_eq_iff.mpr hpos
    refine ⟨j + k, hj.trans hk, ?_⟩
    rw [List.length_cons]
    omega

theorem many (h : ReadsUnless P p) (budget min : Nat) :
    ReadsUnless (min = 0) (Recognizer.many budget p min) := by
  refine iff_ensures.mpr (((iff_ensures.mp h).many collects budget min).mono ?_)
  intro c values rest hmatch
  obtain ⟨hmin, k, hk, hlen⟩ := hmatch
  exact ⟨k, hk, fun h0 => by omega⟩

end ReadsUnless

end Recognizer

namespace Parser

open Recognizer (ReadsUnless)

variable [Cursor γ σ] [LawfulCursor γ] [BEq σ] (r : Registry σ δ)

/-- Only nullable parsers match without reading. -/
theorem recognizer_readsUnless_nullable (budget : Nat) (p : Parser σ δ) :
    ReadsUnless (Nullable r p) (recognizer (γ := γ) r budget p) := by
  induction budget generalizing p with
  | zero =>
    intro c value rest h
    cases h
  | succ budget ih =>
    have hall (ps : List (Parser σ δ)) :
        ∀ q ∈ ps, ReadsUnless (Nullable r q) (recognizer (γ := γ) r budget q) := fun q _ => ih q
    intro c value rest h
    cases p with
    | oneOf symbols =>
      exact ((ReadsUnless.oneOf symbols).action _).mono False.elim c value rest h
    | anySymbol => exact (ReadsUnless.anySymbol.action _).mono False.elim c value rest h
    | endOfInput v =>
      exact (ReadsUnless.endOfInput v).mono (fun _ => .endOfInput v) c value rest h
    | sequence ps =>
      exact ((ReadsUnless.sequence (hall ps)).action _).mono .sequence c value rest h
    | select ps index =>
      exact (ReadsUnless.select (hall ps) index).mono (.select index) c value rest h
    | pair p q =>
      have hpair := (ih p).andThen fun first => (ih q).action (first, ·)
      exact (hpair.action _).mono (fun hpq => .pair hpq.1 hpq.2) c value rest h
    | choice ps =>
      refine (ReadsUnless.choice (hall ps)).mono ?_ c value rest h
      intro hex
      obtain ⟨q, hq, hnull⟩ := hex
      exact .choice hq hnull
    | optional p =>
      have hopt := ((ih p).action some).optionalOr none
      exact (hopt.action _).mono (fun _ => .optional p) c value rest h
    | optionalOr p v =>
      exact ((ih p).optionalOr v).mono (fun _ => .optionalOr p v) c value rest h
    | many p min =>
      refine (((ih p).many budget min).action _).mono ?_ c value rest h
      intro hmin
      obtain rfl := hmin
      exact .many p
    | action p f => exact ((ih p).action f).mono (.action f) c value rest h
    | reference g name =>
      cases hres : r.resolve g name with
      | error e =>
        simp [recognizer, step, hres, Run.ofExcept] at h
      | ok body =>
        have hbody : (recognizer r budget body c).result? = some (.ok (.success value rest)) := by
          simpa [recognizer, step, hres, Run.ofExcept] using h
        exact (ih body).mono (.reference hres) c value rest hbody
    | leaf x => exact x.elim

theorem parse_readsUnless_nullable (p : Parser σ δ) :
    ReadsUnless (Nullable r p) (p.parse (γ := γ) r) :=
  fun c => recognizer_readsUnless_nullable r (budget r p c) p c

theorem parse_success_reaches_or_nullable {p : Parser σ δ} {c rest : γ} {value : Value σ δ}
    (h : (p.parse r c).result? = some (.ok (.success value rest))) :
    ∃ k, Reaches k c rest ∧ (k = 0 → Nullable r p) :=
  parse_readsUnless_nullable r p c value rest h

theorem remaining_ne_of_not_nullable {p : Parser σ δ} (hp : ¬ Nullable r p) {c rest : γ}
    {value : Value σ δ} (h : (p.parse r c).result? = some (.ok (.success value rest))) :
    Cursor.remaining rest ≠ Cursor.remaining c := by
  obtain ⟨k, hk, hnull⟩ := parse_success_reaches_or_nullable r h
  intro heq
  have hlen := hk.length_remaining
  rw [heq] at hlen
  exact hp (hnull (by omega))

/-- A match leaves the input as it was and the cursor some steps further on, and its position is
the same as before exactly when nothing was read. -/
theorem parse_success_advances {ς : Type} [SourcedCursor γ ς] {p : Parser σ δ} {c rest : γ}
    {value : Value σ δ}
    (h : (p.parse r c).result? = some (.ok (.success value rest))) :
    ∃ k ≤ (Cursor.remaining c).length, rest = Cursor.advanceBy k c ∧
      (∀ j < k, Cursor.isExhausted (Cursor.advanceBy j c) = false) ∧
      SourcedCursor.source rest = SourcedCursor.source c ∧
      Cursor.remaining rest = (Cursor.remaining c).drop k ∧
      Cursor.position c ≤ Cursor.position rest ∧
      (Cursor.position rest = Cursor.position c ↔ k = 0) := by
  obtain ⟨k, hk, -⟩ := parse_success_reaches_or_nullable r h
  have hsource : SourcedCursor.source rest = SourcedCursor.source c := by
    rw [hk.2, Cursor.source_advanceBy]
  exact ⟨k, hk.1, hk.2, fun j hj => hk.isExhausted_eq_false hj, hsource, hk.remaining_eq,
    hk.position_le, hk.position_eq_iff⟩

end Parser

namespace Brackets

theorem item_success_advances :
    (item.parse rules (SliceCursor.reading input 1)).result? =
      some (.ok (.success (.list [.symbol '(', .list [.symbol 'x'], .symbol ')'])
        (.reading input 4))) ∧
    ∃ k ≤ (Cursor.remaining (SliceCursor.reading input 1)).length,
      SliceCursor.reading input 4 = Cursor.advanceBy k (.reading input 1) ∧
      (∀ j < k, Cursor.isExhausted (Cursor.advanceBy j (SliceCursor.reading input 1)) = false) ∧
      SourcedCursor.source (SliceCursor.reading input 4) =
        SourcedCursor.source (SliceCursor.reading input 1) ∧
      Cursor.remaining (SliceCursor.reading input 4) =
        (Cursor.remaining (SliceCursor.reading input 1)).drop k ∧
      Cursor.position (SliceCursor.reading input 1) ≤
        Cursor.position (SliceCursor.reading input 4) ∧
      (Cursor.position (SliceCursor.reading input 4) =
        Cursor.position (SliceCursor.reading input 1) ↔ k = 0) := by
  have hsuccess : (item.parse rules (SliceCursor.reading input 1)).result? =
      some (.ok (.success (.list [.symbol '(', .list [.symbol 'x'], .symbol ')'])
        (.reading input 4))) := rfl
  exact ⟨hsuccess, Parser.parse_success_advances rules hsuccess⟩

end Brackets

end Descent
