import Descent.Grammar

/-!
# Bindings

What each operation on a registry does to the parsers that references find. The last binding of a
name wins, a dropped grammar keeps none, and no operation on one grammar touches another.
-/

namespace Descent.Registry

variable {σ δ ξ : Type} (r : Registry σ δ ξ)

theorem isLive_iff {g : GrammarId} :
    r.isLive g = true ↔ ∃ table, r.tables[g.index]? = some (some table) := by
  simp [isLive, table?, Option.isSome_iff_exists, Option.join_eq_some_iff]

theorem lt_length_of_isLive {g : GrammarId} (h : r.isLive g = true) :
    g.index < r.tables.length := by
  obtain ⟨table, h⟩ := r.isLive_iff.1 h
  exact (List.getElem?_eq_some_iff.1 h).1

theorem table?_create (g : GrammarId) :
    (r.create.2).table? g = if g = r.create.1 then some ∅ else r.table? g := by
  obtain ⟨i⟩ := g
  rcases Nat.lt_trichotomy i r.tables.length with h | rfl | h
  · have hne : i ≠ r.tables.length := Nat.ne_of_lt h
    simp [create, table?, List.getElem?_append_left h, hne]
  · simp [create, table?]
  · have hne : i ≠ r.tables.length := Nat.ne_of_gt h
    have hle : r.tables.length ≤ i := Nat.le_of_lt h
    have hlast : 1 ≤ i - r.tables.length := Nat.sub_pos_of_lt h
    simp [create, table?, hne, List.getElem?_append_right hle, List.getElem?_eq_none hle,
      List.getElem?_eq_none (l := [some ∅]) hlast]

theorem not_isLive_create_fst : r.isLive r.create.1 = false := by
  simp [isLive, table?, create]

theorem table?_drop (g g' : GrammarId) :
    (r.drop g).table? g' = if g' = g then none else r.table? g' := by
  obtain ⟨i⟩ := g
  obtain ⟨j⟩ := g'
  by_cases h : j = i
  · subst h
    simp only [drop, table?, List.getElem?_set_self', if_true]
    cases r.tables[j]? <;> rfl
  · simp [drop, table?, List.getElem?_set_ne (Ne.symm h), h]

theorem table?_bind (g g' : GrammarId) (name : String) (p : Parser σ δ ξ) :
    (r.bind g name p).table? g' =
      if g' = g then (r.table? g).map (·.insert name p) else r.table? g' := by
  unfold bind
  split
  next table h =>
    have hlt := r.lt_length_of_isLive (g := g) (by simp [isLive, h])
    obtain ⟨i⟩ := g
    obtain ⟨j⟩ := g'
    by_cases hj : j = i
    · subst hj
      rw [if_pos rfl, h]
      simp [table?, hlt]
    · simp [table?, List.getElem?_set_ne (Ne.symm hj), hj]
  next h =>
    split
    · simp_all
    · rfl

theorem isLive_create (g : GrammarId) :
    r.create.2.isLive g = (g = r.create.1 || r.isLive g) := by
  by_cases hg : g = r.create.1 <;> simp [isLive, table?_create, hg]

theorem isLive_drop (g g' : GrammarId) : (r.drop g).isLive g' = (g' ≠ g && r.isLive g') := by
  by_cases hg : g' = g <;> simp [isLive, table?_drop, hg]

theorem isLive_bind (g g' : GrammarId) (name : String) (p : Parser σ δ ξ) :
    (r.bind g name p).isLive g' = r.isLive g' := by
  by_cases hg : g' = g <;> simp [isLive, table?_bind, hg]

theorem length_bind (g : GrammarId) (name : String) (p : Parser σ δ ξ) :
    (r.bind g name p).tables.length = r.tables.length := by
  unfold bind
  split
  · exact List.length_set
  · rfl

/-- In the grammar it is made in, a binding changes its own name and no other. -/
theorem resolve_bind_self {g : GrammarId} (h : r.isLive g = true) (name name' : String)
    (p : Parser σ δ ξ) :
    (r.bind g name p).resolve g name' = if name' = name then .ok p else r.resolve g name' := by
  obtain ⟨table, htable⟩ := Option.isSome_iff_exists.1 h
  simp only [resolve, table?_bind, if_true, htable, Option.map_some]
  by_cases hn : name' = name
  · subst hn
    simp
  · have hne : name ≠ name' := Ne.symm hn
    simp [Std.TreeMap.getElem?_insert, hn, hne]

theorem resolve_bind_of_ne {g g' : GrammarId} (h : g' ≠ g) (name name' : String)
    (p : Parser σ δ ξ) : (r.bind g name p).resolve g' name' = r.resolve g' name' := by
  simp [resolve, table?_bind, h]

/-- A binding is noticed under one name of one grammar alone. -/
theorem resolve_bind_of_prod_ne {g g' : GrammarId} {name name' : String}
    (h : (g', name') ≠ (g, name)) (p : Parser σ δ ξ) :
    (r.bind g name p).resolve g' name' = r.resolve g' name' := by
  by_cases hg : g' = g
  · obtain rfl := hg
    have hname : name' ≠ name := fun heq => h (congrArg _ heq)
    cases hlive : r.isLive g' with
    | true => exact (r.resolve_bind_self hlive name name' p).trans (if_neg hname)
    | false =>
      have htable : r.table? g' = none := by simpa [isLive] using hlive
      simp only [bind, htable]
  · exact r.resolve_bind_of_ne hg name name' p

theorem resolve_drop_self (g : GrammarId) (name : String) :
    (r.drop g).resolve g name = .error (.droppedGrammar name) := by
  simp [resolve, table?_drop]

theorem resolve_drop_of_ne {g g' : GrammarId} (h : g' ≠ g) (name : String) :
    (r.drop g).resolve g' name = r.resolve g' name := by
  simp [resolve, table?_drop, h]

theorem resolve_create_self (name : String) :
    (r.create.2).resolve r.create.1 name = .error (.unboundRule name) := by
  simp [resolve, table?_create]

theorem resolve_create_of_ne {g : GrammarId} (h : g ≠ r.create.1) (name : String) :
    (r.create.2).resolve g name = r.resolve g name := by
  simp [resolve, table?_create, h]

/-- A look-up fails for want of the grammar or for want of a binding. -/
theorem resolve_eq (g : GrammarId) (name : String) :
    r.resolve g name =
      if r.isLive g then
        match r.binding? g name with
        | some p => .ok p
        | none => .error (.unboundRule name)
      else .error (.droppedGrammar name) := by
  cases htable : r.table? g with
  | none => simp [resolve, isLive, htable]
  | some table =>
    cases hp : table[name]? <;> simp [resolve, isLive, binding?, htable, hp, Except.toOption]

theorem mem_names_iff {g : GrammarId} {name : String} :
    name ∈ r.names g ↔ r.isBound g name = true := by
  simp only [names, isBound, binding?, resolve]
  cases htable : r.table? g with
  | none => simp [Except.toOption]
  | some table =>
    rw [Std.TreeMap.mem_keys, Std.TreeMap.mem_iff_isSome_getElem?]
    cases hp : table[name]? <;> simp [hp, Except.toOption]

theorem binding?_eq_none_of_not_live {g : GrammarId} (h : r.isLive g = false) (name : String) :
    r.binding? g name = none := by
  have htable : r.table? g = none := by simpa [isLive] using h
  simp [binding?, resolve, htable, Except.toOption]

theorem resolve_eq_unbound {g : GrammarId} {name : String} (hlive : r.isLive g = true)
    (hbound : r.isBound g name = false) : r.resolve g name = .error (.unboundRule name) := by
  have hnone : r.binding? g name = none := by simpa [isBound] using hbound
  rw [resolve_eq, if_pos hlive, hnone]

theorem table?_of_resolve {g : GrammarId} {name : String} {p : Parser σ δ ξ}
    (h : r.resolve g name = .ok p) :
    ∃ table, r.tables[g.index]? = some (some table) ∧ table[name]? = some p := by
  unfold resolve at h
  split at h
  · cases h
  next table htable =>
    split at h
    · cases h
    next q hq =>
      cases h
      exact ⟨table, Option.join_eq_some_iff.mp htable, hq⟩

theorem isLive_of_resolve {g : GrammarId} {name : String} {p : Parser σ δ ξ}
    (h : r.resolve g name = .ok p) : r.isLive g = true := by
  obtain ⟨table, htable, -⟩ := r.table?_of_resolve h
  exact r.isLive_iff.2 ⟨table, htable⟩

theorem mem_bodies_of_resolve {g : GrammarId} {name : String} {p : Parser σ δ ξ}
    (h : r.resolve g name = .ok p) : p ∈ r.bodies := by
  obtain ⟨table, htable, hp⟩ := r.table?_of_resolve h
  refine List.mem_flatMap.mpr ⟨some table, List.mem_of_getElem? htable, ?_⟩
  exact List.mem_map.mpr ⟨(name, p), Std.TreeMap.mem_toList_iff_getElem?_eq_some.mpr hp, rfl⟩

end Descent.Registry
