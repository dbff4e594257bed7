import Descent.Grammar.History
import Descent.Proofs.Footprint
import Descent.Text.Bytes

/-!
# Registries after histories

After any history of operations a registry holds what the history says: the grammars created and not
dropped, each with the latest parser registered under each name. All ways to a rule lead to that
parser. A parser that was handed out stays what it was, and the references that it comes to find
the latest parsers.
-/

namespace Descent

variable {γ σ δ ξ : Type}

namespace Registry

variable (r : Registry σ δ ξ)

/-- The names of a grammar come in the order of their bytes, each name once. -/
theorem pairwise_names (g : GrammarId) :
    (r.names g).Pairwise fun a b => Text.bytes a < Text.bytes b := by
  unfold names
  split
  next table _ =>
    refine (Std.TreeMap.ordered_keys (t := table)).imp ?_
    intro a b hab
    exact Text.bytes_lt_bytes (compareOfLessAndEq_eq_lt.mp hab)
  · exact .nil

/-- The registry holds what the history says. -/
structure Reflects (r : Registry σ δ ξ) (h : History σ δ ξ) : Prop where
  length_eq : r.tables.length = h.countP Operation.isCreate
  isLive_eq (g : GrammarId) : r.isLive g = h.holds g
  binding?_eq {g : GrammarId} (name : String) :
    r.isLive g = true → r.binding? g name = h.latest g name
  /-- No operation was on a grammar that was not there yet. -/
  lt_length {op : Operation σ δ ξ} {g : GrammarId} :
    op ∈ h → op.grammar? = some g → g.index < r.tables.length

theorem reflects_empty : Reflects (empty : Registry σ δ ξ) [] where
  length_eq := rfl
  isLive_eq _ := rfl
  binding?_eq _ hlive := by cases hlive
  lt_length hop := by cases hop

variable {r} {h : History σ δ ξ}

theorem Reflects.latest_eq_none (hr : r.Reflects h) {g : GrammarId} (hg : r.tables.length ≤ g.index)
    (name : String) : h.latest g name = none := by
  have hnot : ¬ (h.latest g name).isSome = true := by
    rw [← History.exists_register_iff]
    rintro ⟨p, hp⟩
    have hlt := hr.lt_length hp rfl
    omega
  simpa using hnot

theorem Reflects.any_drops_eq_false (hr : r.Reflects h) {g : GrammarId}
    (hg : r.tables.length ≤ g.index) : h.any (·.drops g) = false := by
  rw [List.any_eq_false]
  intro op hop hdrops
  have hlt := hr.lt_length hop (Operation.grammar?_of_drops hdrops)
  omega

theorem Reflects.resolve_eq (hr : r.Reflects h) (g : GrammarId) (name : String) :
    r.resolve g name = h.lookup g name := by
  rw [Registry.resolve_eq, History.lookup, ← hr.isLive_eq]
  split
  next hlive => cases hlatest : h.latest g name <;> simp only [hr.binding?_eq name hlive, hlatest]
  · rfl

variable [Described σ] [Described ξ]

theorem length_perform (op : Operation σ δ ξ) :
    (op.perform r).2.tables.length = r.tables.length + if op.isCreate then 1 else 0 := by
  cases op <;> simp [Operation.perform, Operation.isCreate, create, drop, register, length_bind]

theorem isLive_perform (op : Operation σ δ ξ) (g : GrammarId) :
    (op.perform r).2.isLive g =
      (op.isCreate && g = r.create.1 || r.isLive g && !op.drops g) := by
  cases op with
  | drop g' =>
    have hcomm : (g ≠ g') ↔ ¬ g' = g := by rw [ne_eq, eq_comm]
    simp [Operation.perform, Operation.isCreate, Operation.drops, isLive_drop, hcomm, Bool.and_comm]
  | _ =>
    simp [Operation.perform, Operation.isCreate, Operation.drops, isLive_create, register,
      isLive_bind]

/-- Only a registration changes a binding of a grammar that is still alive. -/
theorem binding?_perform {op : Operation σ δ ξ} {g : GrammarId} (name : String)
    (hlive : (op.perform r).2.isLive g = true) :
    (op.perform r).2.binding? g name = (op.binding? g name).or (r.binding? g name) := by
  cases op with
  | create =>
    by_cases hg : g = r.create.1
    · rw [hg, r.binding?_eq_none_of_not_live r.not_isLive_create_fst]
      simp [Operation.perform, Operation.binding?, binding?, resolve_create_self, Except.toOption]
    · simp [Operation.perform, Operation.binding?, binding?, resolve_create_of_ne r hg]
  | drop g' =>
    have hg : g ≠ g' := by
      rintro rfl
      simp [Operation.perform, isLive_drop] at hlive
    simp [Operation.perform, Operation.binding?, binding?, resolve_drop_of_ne r hg]
  | register g' name' p =>
    by_cases hg : g = g'
    · obtain rfl := hg
      have hlive' : r.isLive g = true := by rwa [← r.isLive_bind g g name' p]
      simp only [Operation.perform, Operation.binding?, binding?, register,
        resolve_bind_self r hlive', true_and, eq_comm (a := name')]
      split <;> rfl
    · have hg' : ¬ g' = g := fun heq => hg heq.symm
      simp [Operation.perform, Operation.binding?, binding?, register, resolve_bind_of_ne r hg, hg']
  | rule | reference => rfl

/-- One more operation, on a grammar that is alive. -/
theorem Reflects.perform (hr : r.Reflects h) {op : Operation σ δ ξ}
    (hop : op.grammar?.all r.isLive = true) : (op.perform r).2.Reflects (h ++ [op]) where
  length_eq := by
    rw [length_perform, hr.length_eq, List.countP_append, List.countP_singleton]
  isLive_eq := by
    intro g
    rw [isLive_perform, History.holds_append_singleton]
    cases op with
    | create =>
      by_cases hg : g = r.create.1
      · have hany := hr.any_drops_eq_false (g := g) (by rw [hg]; exact Nat.le_refl _)
        have hindex : g.index = h.countP Operation.isCreate := by rw [hg, ← hr.length_eq]; rfl
        rw [hany, hindex]
        simp [hg, Operation.isCreate, Operation.drops]
      · have hindex : g.index ≠ h.countP Operation.isCreate := by
          rw [← hr.length_eq]
          exact fun heq => hg (congrArg GrammarId.mk heq)
        have hlt : g.index < h.countP Operation.isCreate + 1 ↔
            g.index < h.countP Operation.isCreate := by omega
        simp [hr.isLive_eq, History.holds, hg, hlt, Operation.isCreate, Operation.drops]
    | _ => simp [hr.isLive_eq, History.holds, Operation.isCreate]
  binding?_eq := by
    intro g name hlive
    rw [binding?_perform name hlive, History.latest_append_singleton]
    congr 1
    cases hbefore : r.isLive g with
    | true => exact hr.binding?_eq name hbefore
    | false =>
      rw [isLive_perform, hbefore, Bool.false_and, Bool.or_false, Bool.and_eq_true,
        decide_eq_true_eq] at hlive
      have hle : r.tables.length ≤ g.index := by
        rw [hlive.2]
        exact Nat.le_refl _
      rw [r.binding?_eq_none_of_not_live hbefore, hr.latest_eq_none hle]
  lt_length := by
    intro op' g hmem hg
    rw [length_perform]
    rcases List.mem_append.mp hmem with hmem | hmem
    · exact Nat.lt_add_right _ (hr.lt_length hmem hg)
    · obtain rfl := List.mem_singleton.mp hmem
      rw [hg] at hop
      exact Nat.lt_add_right _ (r.lt_length_of_isLive hop)

/-- By induction on what is done later, one operation after another. -/
theorem Reflects.after (hr : r.Reflects h) {later : History σ δ ξ}
    (hlater : r.allows later = true) : (r.after later).Reflects (h ++ later) := by
  induction later generalizing r h with
  | nil => rwa [List.append_nil]
  | cons op later ih =>
    rw [allows, Bool.and_eq_true] at hlater
    have hlast := ih (hr.perform hlater.1) hlater.2
    rwa [List.append_assoc] at hlast

theorem reflects_after (hallowed : (empty : Registry σ δ ξ).allows h = true) :
    (empty.after h).Reflects h := reflects_empty.after hallowed

/-- An operation on one grammar changes nothing in another. -/
theorem resolve_perform_of_ne {op : Operation σ δ ξ} {g : GrammarId} (hlive : r.isLive g = true)
    (hop : op.grammar? ≠ some g) (name : String) :
    (op.perform r).2.resolve g name = r.resolve g name := by
  cases op with
  | create =>
    apply resolve_create_of_ne
    rintro rfl
    cases hlive.symm.trans r.not_isLive_create_fst
  | drop g' => exact resolve_drop_of_ne r (fun heq => hop (congrArg some heq.symm)) name
  | register g' name' p => exact resolve_bind_of_ne r (fun heq => hop (congrArg some heq.symm)) ..
  | rule | reference => rfl

/-- The registry gives the answers about a grammar that the history tells. -/
structure Tells (r : Registry σ δ ξ) (h : History σ δ ξ) (g : GrammarId) : Prop where
  resolve_eq (name : String) : r.resolve g name = h.lookup g name
  isBound_eq (name : String) : r.isBound g name = (h.latest g name).isSome
  description_eq (name : String) : r.description g name = (h.lookup g name).map Parser.describe
  previous_eq (name : String) (p : Parser σ δ ξ) : (r.register g name p).previous = h.latest g name
  mem_names_iff (name : String) : name ∈ r.names g ↔ ∃ p, .register g name p ∈ h
  pairwise_names : (r.names g).Pairwise fun a b => Text.bytes a < Text.bytes b

theorem tells_of_resolve_eq {g : GrammarId} (hg : h.holds g = true)
    (hresolve : ∀ name, r.resolve g name = h.lookup g name) : r.Tells h g := by
  have hbinding (name : String) : r.binding? g name = h.latest g name := by
    rw [binding?, hresolve, History.lookup, if_pos hg]
    cases h.latest g name <;> rfl
  have hbound (name : String) : r.isBound g name = (h.latest g name).isSome := by
    rw [isBound, hbinding]
  exact
    { resolve_eq := hresolve
      isBound_eq := hbound
      description_eq := fun name => by rw [description, hresolve]
      previous_eq := fun name _ => hbinding name
      mem_names_iff := fun name => by
        rw [Registry.mem_names_iff, hbound, History.exists_register_iff]
      pairwise_names := r.pairwise_names g }

end Registry

namespace History

variable [Described σ] [Described ξ] {h : History σ δ ξ} {op : Operation σ δ ξ} {i : Nat}

/-- What an operation is performed on: a registry that reflects the operations before it, with the
grammar alive. -/
theorem reflects_take (hallowed : (Registry.empty : Registry σ δ ξ).allows h = true)
    (hi : h[i]? = some op) :
    (Registry.empty.after (h.take i)).Reflects (h.take i) ∧
      op.grammar?.all (Registry.empty.after (h.take i)).isLive = true := by
  obtain ⟨hlt, hop⟩ := List.getElem?_eq_some_iff.mp hi
  rw [← List.take_append_drop i h, List.drop_eq_getElem_cons hlt, hop, Registry.allows_append,
    Registry.allows, Bool.and_eq_true, Bool.and_eq_true] at hallowed
  obtain ⟨hbefore, hlive, -⟩ := hallowed
  exact ⟨Registry.reflects_after hbefore, hlive⟩

theorem reply?_eq (hi : h[i]? = some op) :
    h.reply? i = some (op.perform (Registry.empty.after (h.take i))).1 := by
  rw [reply?, hi, Option.map_some]

theorem reply?_register {g : GrammarId} {name : String} {p : Parser σ δ ξ}
    (hallowed : (Registry.empty : Registry σ δ ξ).allows h = true)
    (hi : h[i]? = some (.register g name p)) :
    h.reply? i = some (.registered (latest (h.take i) g name)) := by
  obtain ⟨hr, hlive⟩ := reflects_take hallowed hi
  rw [reply?_eq hi, ← hr.binding?_eq name hlive]
  rfl

theorem reply?_rule {g : GrammarId} {name : String}
    (hallowed : (Registry.empty : Registry σ δ ξ).allows h = true)
    (hi : h[i]? = some (.rule g name)) :
    h.reply? i = some (.found (lookup (h.take i) g name)) := by
  obtain ⟨hr, -⟩ := reflects_take hallowed hi
  rw [reply?_eq hi, ← hr.resolve_eq]
  rfl

/-- After any history the latest registration of a name wins: in what operations hand back, in what
a grammar tells about itself, and in what parsing by name and references come to, however early they
were made. No run can tell apart histories with the same latest registrations. -/
theorem latest_wins [Cursor γ σ] [BEq σ] [LawfulCursor γ] {h : History σ δ}
    (hallowed : (Registry.empty : Registry σ δ).allows h = true) :
    let r := Registry.empty.after h
    -- What was handed back, each time as of then.
    (∀ i g name p, h[i]? = some (.register g name p) →
      h.reply? i = some (.registered (latest (h.take i) g name))) ∧
    (∀ i g name, h[i]? = some (.rule g name) →
      h.reply? i = some (.found (lookup (h.take i) g name))) ∧
    (∀ i g name, h[i]? = some (.reference g name) →
      h.reply? i = some (.reference (.reference g name))) ∧
    -- What the grammars that are still there tell.
    (∀ g, h.holds g = true → r.isLive g = true ∧ r.Tells h g) ∧
    -- By name or by reference, it is the latest parser that runs.
    (∀ g name (c : γ), (r.parse g name c).result? = r.resultOf (h.lookup g name) c ∧
      ((Parser.reference g name).parse r c).result? = r.resultOf (h.lookup g name) c) ∧
    -- A parser runs its own parts, whenever it was handed out, over what names mean now.
    (∀ (p : Parser σ δ) (c : γ) (rounds : Nat), (Cursor.remaining c).length < rounds →
      p.parse r c = p.step r rounds (fun q => q.parse r) c) ∧
    (∀ h' : History σ δ, (Registry.empty : Registry σ δ).allows h' = true →
      (∀ g name, h'.lookup g name = h.lookup g name) →
      ∀ (p : Parser σ δ) (c : γ), p.parse (Registry.empty.after h') c = p.parse r c) ∧
    -- Nothing that is done to one grammar changes what another one tells.
    (∀ (op : Operation σ δ) g, h.holds g = true → op.grammar? ≠ some g →
      (op.perform r).2.isLive g = true ∧ (op.perform r).2.Tells h g) := by
  intro r
  have hr : r.Reflects h := Registry.reflects_after hallowed
  refine ⟨fun i g name p => reply?_register hallowed, fun i g name => reply?_rule hallowed,
    fun i g name => reply?_eq, ?_, ?_, ?_, ?_, ?_⟩
  · intro g hg
    exact ⟨(hr.isLive_eq g).trans hg, Registry.tells_of_resolve_eq hg (hr.resolve_eq g)⟩
  · intro g name c
    rw [← hr.resolve_eq]
    exact ⟨r.result?_parse g name c, Parser.result?_parse_reference r g name c⟩
  · intro p c rounds hrounds
    exact Parser.parse_eq_step r p hrounds
  · intro h' hallowed' hlookup
    have hr' : (Registry.empty.after h').Reflects h' := Registry.reflects_after hallowed'
    apply Parser.parse_eq_of_resolve_eq
    intro g name
    rw [hr'.resolve_eq, hr.resolve_eq, hlookup]
  · intro op g hg hne
    have hlive : r.isLive g = true := (hr.isLive_eq g).trans hg
    have hdrops : op.drops g = false := by
      by_contra hdrops
      exact hne (Operation.grammar?_of_drops (by simpa using hdrops))
    refine ⟨by simp [Registry.isLive_perform, hlive, hdrops], Registry.tells_of_resolve_eq hg ?_⟩
    intro name
    rw [Registry.resolve_perform_of_ne hlive hne, hr.resolve_eq]

def letters : GrammarId := ⟨0⟩

def others : GrammarId := ⟨1⟩

/-- A letter is referred to, bound, asked for and bound anew, while another grammar comes and
goes. -/
def revisions : History Char Unit :=
  [.create, .reference letters "letter", .create, .register letters "letter" (.symbol 'a'),
    .rule letters "letter", .register others "letter" (.symbol 'c'),
    .register letters "letter" (.symbol 'b'), .drop others]

/-- The reference made before any registration runs the second parser. The first one, which is kept,
still fails where the second one matches. -/
theorem revisions_latest_wins :
    (Registry.empty : Registry Char Unit).allows revisions = true ∧
    revisions.reply? 1 = some (.reference (.reference letters "letter")) ∧
    revisions.reply? 4 = some (.found (.ok (.symbol 'a'))) ∧
    revisions.reply? 6 = some (.registered (some (.symbol 'a'))) ∧
    (Registry.empty.after revisions).Tells revisions letters ∧
    ((Parser.reference letters "letter").parse (Registry.empty.after revisions)
      (SliceCursor.ofArray #['b'])).result? =
        some (.ok (.success (.symbol 'b') (.ended #['b']))) ∧
    ((Parser.symbol 'a').parse (Registry.empty.after revisions)
      (SliceCursor.ofArray #['b'])).result? = some (.ok .failure) := by
  have hallowed : (Registry.empty : Registry Char Unit).allows revisions = true := rfl
  obtain ⟨hregister, hrule, hreference, htells, hresults, -, -, -⟩ :=
    latest_wins (γ := SliceCursor Char) hallowed
  refine ⟨hallowed, hreference 1 letters "letter" rfl, hrule 4 letters "letter" rfl,
    hregister 6 letters "letter" (.symbol 'b') rfl, (htells letters rfl).2, ?_, rfl⟩
  exact (hresults letters "letter" (SliceCursor.ofArray #['b'])).2

end History

end Descent
