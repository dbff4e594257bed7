import Descent.Proofs.History

/-!
# What operations do to runs

An operation on a grammar has an effect on those runs that look names up there, and on no others. A
registration is noticed by the runs that look up the name. To drop a grammar makes every run end at
its first look-up there, and nothing that is done later takes that back.
-/

namespace Descent

variable {γ σ δ ξ : Type}

namespace Registry

variable [Described σ] [Described ξ] {r : Registry σ δ ξ}

/-- A row of registrations is noticed under their own names alone. -/
theorem resolve_after_registers {later : History σ δ ξ} {g : GrammarId} {name : String}
    (h : ∀ op ∈ later, ∃ g' name' p, op = .register g' name' p ∧ (g, name) ≠ (g', name')) :
    (r.after later).resolve g name = r.resolve g name := by
  induction later generalizing r with
  | nil => rfl
  | cons op later ih =>
    obtain ⟨⟨g', name', p, rfl, hne⟩, hlater⟩ := List.forall_mem_cons.mp h
    rw [after_cons, ih hlater]
    exact r.resolve_bind_of_prod_ne hne p

/-- Identities are not given out again, so a dropped grammar stays dropped whatever is done. -/
theorem isLive_after_of_dropped {g : GrammarId} (hg : g.index < r.tables.length)
    (hdropped : r.isLive g = false) (later : History σ δ ξ) : (r.after later).isLive g = false := by
  induction later generalizing r with
  | nil => exact hdropped
  | cons op later ih =>
    apply ih
    · rw [length_perform]
      exact Nat.lt_add_right _ hg
    · have hne : g ≠ r.create.1 := by
        rintro rfl
        exact Nat.lt_irrefl _ hg
      simp [isLive_perform, hdropped, hne]

theorem resolve_after_drop {g : GrammarId} (hlive : r.isLive g = true) (later : History σ δ ξ)
    (name : String) : ((r.drop g).after later).resolve g name = .error (.droppedGrammar name) := by
  have hdropped : ((r.drop g).after later).isLive g = false := by
    apply isLive_after_of_dropped
    · simpa [drop] using r.lt_length_of_isLive hlive
    · simp [isLive_drop]
  rw [resolve_eq, hdropped]
  rfl

end Registry

namespace Parser

variable [Cursor γ σ] [BEq σ] [LawfulCursor γ] [Described σ] {r : Registry σ δ} {p : Parser σ δ}
variable {c : γ} {a : Answer γ σ δ}

/-- A registration changes only the runs that look the name up. The others stay as they are, down to
their events. A run that does not report a rule as missing has not looked it up, so it stays as it
is when missing rules are registered, any number of them. -/
theorem parse_register {g : GrammarId} (hlive : r.isLive g = true)
    (h : (p.parse r c).result? = some a) (name : String) (q : Parser σ δ) :
    Nonempty (Record r p c a) ∧
    (∀ record : Record r p c a, (g, name) ∉ record.lookups →
      p.parse (r.register g name q).registry c = p.parse r c) ∧
    (r.isBound g name = false → a ≠ .error (.unboundRule name) →
      ∀ record : Record r p c a, (g, name) ∉ record.lookups) ∧
    (∀ later : History σ δ, (∀ op ∈ later, ∃ g' name' q', op = .register g' name' q' ∧
        r.isLive g' = true ∧ r.isBound g' name' = false ∧ a ≠ .error (.unboundRule name')) →
      p.parse (r.after later) c = p.parse r c) := by
  have hrecord : Nonempty (Record r p c a) := Record.nonempty_iff.mpr h
  refine ⟨hrecord, ?_, ?_, ?_⟩
  · intro record hnot
    apply record.parse_eq_of_agree
    rintro ⟨g', name'⟩ hx
    apply Registry.resolve_bind_of_prod_ne
    rintro ⟨⟩
    exact hnot hx
  · intro hbound hne record hmem
    exact hne (record.eq_error_of_mem_lookups hmem (r.resolve_eq_unbound hlive hbound))
  · intro later hlater
    obtain ⟨record⟩ := hrecord
    apply record.parse_eq_of_agree
    rintro ⟨g'', name''⟩ hx
    apply Registry.resolve_after_registers
    intro op hop
    obtain ⟨g', name', q', rfl, hlive', hbound', hne'⟩ := hlater op hop
    refine ⟨g', name', q', rfl, ?_⟩
    rintro ⟨⟩
    exact hne' (record.eq_error_of_mem_lookups hx (r.resolve_eq_unbound hlive' hbound'))

end Parser

namespace Brackets

/-- An opening bracket, and then a letter or any item. -/
def letterFirst : Parser Char Unit :=
  .pair (.symbol '(') (.choice [.symbol 'x', .reference grammar "item"])

/-- The missing rule is within reach but the input does not lead to it, so it may as well be
registered. -/
theorem letterFirst_parse_register :
    incomplete.isLive grammar = true ∧ incomplete.isBound grammar "item" = false ∧
    (letterFirst.parse incomplete (SliceCursor.reading input 1)).result? =
      some (.ok (.success (.pair (.symbol '(') (.symbol 'x')) (.reading input 3))) ∧
    letterFirst.parse (incomplete.register grammar "item" item).registry
        (SliceCursor.reading input 1) =
      letterFirst.parse incomplete (SliceCursor.reading input 1) := by
  have hlive : incomplete.isLive grammar = true := rfl
  have hbound : incomplete.isBound grammar "item" = false := rfl
  have hresult : (letterFirst.parse incomplete (SliceCursor.reading input 1)).result? =
      some (.ok (.success (.pair (.symbol '(') (.symbol 'x')) (.reading input 3))) := rfl
  obtain ⟨⟨record⟩, hsame, hnot, -⟩ := Parser.parse_register hlive hresult "item" item
  exact ⟨hlive, hbound, hresult, hsame record (hnot hbound nofun record)⟩

end Brackets

namespace Parser

variable [Cursor γ σ] [BEq σ] [LawfulCursor γ] [Described σ] {r : Registry σ δ} {p : Parser σ δ}
variable {c : γ} {a : Answer γ σ δ}

/-- To drop a grammar has one effect on runs, and it stays. Whatever is done later, as long as the
names that a run looked up in other grammars mean what they did, the run comes to what it came to if
it made no look-up in the dropped grammar, and otherwise to an error that names the first. -/
theorem parse_drop {g : GrammarId} (hlive : r.isLive g = true)
    (h : (p.parse r c).result? = some a) (later : History σ δ) :
    let r' := (r.drop g).after later
    Nonempty (Record r p c a) ∧
    ∀ record : Record r p c a, (∀ x ∈ record.lookups, x.1 ≠ g → r.Agree r' x) →
      (p.parse r' c).result? =
        match record.lookups.find? (fun x => x.1 = g) with
        | none => some a
        | some x => some (.error (.droppedGrammar x.2)) := by
  intro r'
  refine ⟨Record.nonempty_iff.mpr h, fun record hagree => ?_⟩
  split
  next hnone =>
    have hother : ∀ x ∈ record.lookups, x.1 ≠ g := by simpa using hnone
    rw [record.parse_eq_of_agree fun x hx => hagree x hx (hother x hx), h]
  next x hfind =>
    obtain ⟨g', name⟩ := x
    obtain rfl : g' = g := by simpa using List.find?_some hfind
    apply record.result?_of_find?_lookups ?_ hfind (Registry.resolve_after_drop hlive later name)
    intro x hx hne
    exact hagree x hx (by simpa using hne)

end Parser

namespace Addresses

def streets : GrammarId := ⟨0⟩

def numbers : GrammarId := ⟨1⟩

def rules : Registry Char Unit :=
  (Registry.empty.create.2.create.2.bind streets "name" (.symbol 'x')).bind numbers "digit"
    (.symbol '1')

/-- A street with a mark behind it, or else with a number. -/
def address : Parser Char Unit :=
  .choice
    [.pair (.reference streets "name") (.symbol '!'),
      .pair (.reference streets "name") (.reference numbers "digit")]

/-- Another grammar takes the place of the numbers, with the same rule. -/
def renewal : History Char Unit := [.create, .register ⟨2⟩ "digit" (.symbol '1')]

def input : Array Char := #['x', '1']

def record : Record rules address (SliceCursor.ofArray input)
    (.ok (.success (.pair (.symbol 'x') (.symbol '1')) (.ended input))) :=
  .ofTrace 20 ⟨_, rfl, rfl⟩

/-- The street is looked up twice and found, and then there are no numbers any more. -/
theorem address_parse_drop :
    rules.isLive numbers = true ∧
    (address.parse rules (SliceCursor.ofArray input)).result? =
      some (.ok (.success (.pair (.symbol 'x') (.symbol '1')) (.ended input))) ∧
    record.lookups = [(streets, "name"), (streets, "name"), (numbers, "digit")] ∧
    (address.parse ((rules.drop numbers).after renewal) (SliceCursor.ofArray input)).result? =
      some (.error (.droppedGrammar "digit")) := by
  have hlive : rules.isLive numbers = true := rfl
  have hresult : (address.parse rules (SliceCursor.ofArray input)).result? =
      some (.ok (.success (.pair (.symbol 'x') (.symbol '1')) (.ended input))) := rfl
  have hlookups : record.lookups =
      [(streets, "name"), (streets, "name"), (numbers, "digit")] := rfl
  refine ⟨hlive, hresult, hlookups, ?_⟩
  have hdrop := (Parser.parse_drop hlive hresult renewal).2 record
  rw [hlookups] at hdrop
  apply hdrop
  intro x hx hne
  obtain rfl : x = (streets, "name") := by
    rcases x with ⟨g, name⟩
    have hg : g ≠ numbers := hne
    simpa [hg] using hx
  rfl

end Addresses

end Descent
