import Descent.Proofs.Phrases
import Descent.Proofs.Strategy

/-!
# Reading phrases

A parser reads phrases of a kind if it matches just where such a phrase is ahead, and then reads the
longest one. Parsers that are put together from parsers of phrases read the phrases that are put
together alike, as long as what follows a part cannot go on with it.
-/

namespace Descent

open Strategy (Follows)

variable {γ σ δ α β : Type} [Cursor γ σ]

namespace Cursor

variable {c : γ} {u w : List σ}

theorem reaches_of_eq (h : remaining c = u ++ w) : Reaches u.length c (advanceBy u.length c) :=
  ⟨by rw [h, List.length_append]; omega, rfl⟩

theorem remaining_advanceBy_of_eq [LawfulCursor γ] (h : remaining c = u ++ w) :
    remaining (advanceBy u.length c) = w := by
  rw [remaining_advanceBy, h, List.drop_left]

end Cursor

namespace Parser

variable [BEq σ] {r : Registry σ δ} {p q : Parser σ δ}

/-- The parser reads the longest phrase ahead, or fails where there is none. -/
def ReadsAt (r : Registry σ δ) (p : Parser σ δ) (print : α → List σ) (value : α → Value σ δ)
    (c : γ) : Prop :=
  (∃ x w, Cursor.remaining c = print x ++ w ∧
    (∀ x' w', Cursor.remaining c = print x' ++ w' → w.length ≤ w'.length) ∧
    (p.parse r c).result? =
      some (.ok (.success (value x) (Cursor.advanceBy (print x).length c)))) ∨
  (∀ x w, Cursor.remaining c ≠ print x ++ w) ∧ (p.parse r c).result? = some (.ok .failure)

/-- The parser reads phrases wherever less than `n` symbols are ahead. -/
def Reads (γ : Type) [Cursor γ σ] (r : Registry σ δ) (n : Nat) (p : Parser σ δ)
    (print : α → List σ) (value : α → Value σ δ) : Prop :=
  ∀ c : γ, (Cursor.remaining c).length < n → ReadsAt r p print value c

theorem result?_of_answers [LawfulCursor γ] {c : γ} {answers : List (Answer γ σ δ)}
    {a : Answer γ σ δ} (h : Follows (fun q => q.parse r) (p.strategy r c) answers)
    (hstop : p.strategy r c answers = .stop a) : (p.parse r c).result? = some a :=
  (parse_result?_iff_exists_answers r).mpr ⟨answers, h, hstop⟩

namespace Reads

variable {print : α → List σ} {print' : β → List σ} {value : α → Value σ δ}
variable {value' : β → Value σ δ} {first first' ext : List σ} {n : Nat}

/-- Phrases under another name. -/
theorem map (h : Reads γ r n p print value) {e : α → β} (he : Function.Surjective e)
    (hprint : ∀ x, print' (e x) = print x) (hvalue : ∀ x, value' (e x) = value x) :
    Reads γ r n p print' value' := by
  intro c hc
  rcases h c hc with ⟨x, w, hx, hlongest, hres⟩ | ⟨hnone, hres⟩
  · refine .inl ⟨e x, w, by rw [hprint, hx], fun y w' hy => ?_, by rw [hprint, hvalue, hres]⟩
    obtain ⟨x', rfl⟩ := he y
    exact hlongest x' w' (by rw [← hprint, hy])
  · refine .inr ⟨fun y w hy => ?_, hres⟩
    obtain ⟨x, rfl⟩ := he y
    exact hnone x w (by rw [← hprint, hy])

variable [LawfulCursor γ]

theorem action (h : Reads γ r n p print value) (f : Value σ δ → Value σ δ) :
    Reads γ r n (.action p f) print (fun x => f (value x)) := by
  intro c hc
  rcases h c hc with ⟨x, w, hx, hlongest, hres⟩ | ⟨hnone, hres⟩
  · exact .inl ⟨x, w, hx, hlongest, result?_of_answers (.cons rfl hres (.nil _)) rfl⟩
  · exact .inr ⟨hnone, result?_of_answers (.cons rfl hres (.nil _)) rfl⟩

theorem reference {g : GrammarId} {name : String} (h : Reads γ r n p print value)
    (hresolve : r.resolve g name = .ok p) : Reads γ r n (.reference g name) print value := by
  intro c hc
  have hresult : ((Parser.reference g name).parse r c).result? = (p.parse r c).result? := by
    rw [result?_parse_reference, hresolve]
    rfl
  rw [ReadsAt, hresult]
  exact h c hc

theorem oneOf [LawfulBEq σ] (symbols : List σ) (n : Nat) :
    Reads γ r n (.oneOf symbols) (fun s : { s // s ∈ symbols } => [s.val])
      (fun s => .symbol s.val) := by
  intro c _
  have hres : ((Parser.oneOf symbols).parse r c).result? =
      some (.ok (.ofSymbol? c ((Cursor.current c).filter (Recognizer.accepts symbols)))) :=
    result?_of_answers (.nil _) rfl
  cases hw : Cursor.remaining c with
  | nil =>
    rw [LawfulCursor.current_eq_head?, hw, List.head?_nil] at hres
    refine .inr ⟨fun s w heq => ?_, hres⟩
    rw [hw] at heq
    cases heq
  | cons s w =>
    rw [LawfulCursor.current_eq_head?, hw, List.head?_cons, Option.filter_some] at hres
    by_cases hs : s ∈ symbols
    · rw [if_pos (Recognizer.accepts_iff_mem.mpr hs)] at hres
      refine .inl ⟨⟨s, hs⟩, w, hw, fun s' w' heq => ?_, hres⟩
      rw [hw] at heq
      injection heq with _ htail
      exact Nat.le_of_eq (congrArg List.length htail)
    · rw [if_neg (mt Recognizer.accepts_iff_mem.mp hs)] at hres
      refine .inr ⟨fun s' w' heq => ?_, hres⟩
      rw [hw] at heq
      injection heq with heq'
      exact hs (heq' ▸ s'.property)

/-- What is read first is no obstacle to what follows, and brings it within reach. -/
theorem pair_of_le {m : Nat} (h : Reads γ r n p print value) (h' : Reads γ r m q print' value')
    (hm : ∀ x, n ≤ (print x).length + m) (hd : Delimited print ext n)
    (hstops : ∀ y, Stops ext (print' y)) :
    Reads γ r n (.pair p q) (fun x : α × β => print x.1 ++ print' x.2)
      (fun x => .pair (value x.1) (value' x.2)) := by
  intro c hc
  rcases h c hc with ⟨x, t, hx, hlongest, hres⟩ | ⟨hnone, hres⟩
  · have hd' := Cursor.remaining_advanceBy_of_eq hx
    have hlen : (print x ++ t).length < n := hx ▸ hc
    have hrest (x' : α) (y' : β) (w' : List σ)
        (heq : Cursor.remaining c = (print x' ++ print' y') ++ w') :
        ∃ w, t = print' y' ++ w ∧ w.length ≤ w'.length := by
      rw [List.append_assoc] at heq
      exact hd.exists_rest (hx ▸ heq) hlen (hlongest x' _ heq) (hstops y')
    have hlen' : (Cursor.remaining (Cursor.advanceBy (print x).length c)).length < m := by
      have hle := hm x
      rw [List.length_append] at hlen
      rw [hd']
      omega
    rcases h' (Cursor.advanceBy (print x).length c) hlen' with
      ⟨y, w, hy, hlongest', hres'⟩ | ⟨hnone', hres'⟩
    · refine .inl ⟨(x, y), w, ?_, ?_, ?_⟩
      · rw [hx, ← hd', hy, List.append_assoc]
      · rintro ⟨x', y'⟩ w' heq
        obtain ⟨w'', ht, hle⟩ := hrest x' y' w' heq
        exact Nat.le_trans (hlongest' y' w'' (hd'.trans ht)) hle
      · rw [List.length_append, Cursor.advanceBy_add]
        exact result?_of_answers (.cons rfl hres (.cons rfl hres' (.nil _))) rfl
    · refine .inr ⟨?_, result?_of_answers (.cons rfl hres (.cons rfl hres' (.nil _))) rfl⟩
      rintro ⟨x', y'⟩ w' heq
      obtain ⟨w, ht, -⟩ := hrest x' y' w' heq
      exact hnone' y' w (hd'.trans ht)
  · refine .inr ⟨?_, result?_of_answers (.cons rfl hres (.nil _)) rfl⟩
    rintro ⟨x', y'⟩ w' heq
    exact hnone x' _ (heq.trans (List.append_assoc _ _ _))

theorem pair (h : Reads γ r n p print value) (h' : Reads γ r n q print' value')
    (hd : Delimited print ext n) (hstops : ∀ y, Stops ext (print' y)) :
    Reads γ r n (.pair p q) (fun x : α × β => print x.1 ++ print' x.2)
      (fun x => .pair (value x.1) (value' x.2)) :=
  h.pair_of_le h' (fun _ => Nat.le_add_left _ _) hd hstops

theorem choice (h : Reads γ r n p print value) (h' : Reads γ r n q print' value')
    (hfirst : Begins print first) (hfirst' : Begins print' first')
    (hdiff : ∀ s ∈ first, s ∉ first') :
    Reads γ r n (.choice [p, q]) (Sum.elim print print') (Sum.elim value value') := by
  intro c hc
  rcases h c hc with ⟨x, w, hx, hlongest, hres⟩ | ⟨hnone, hres⟩
  · refine .inl ⟨.inl x, w, hx, ?_, result?_of_answers (.cons rfl hres (.nil _)) rfl⟩
    rintro (x' | y') w' heq
    · exact hlongest x' w' heq
    · exact absurd (hx.symm.trans heq) (hfirst.append_ne hfirst' hdiff x y' w w')
  · rcases h' c hc with ⟨y, w, hy, hlongest, hres'⟩ | ⟨hnone', hres'⟩
    · refine .inl ⟨.inr y, w, hy, ?_,
        result?_of_answers (.cons rfl hres (.cons rfl hres' (.nil _))) rfl⟩
      rintro (x' | y') w' heq
      · exact absurd heq (hnone x' w')
      · exact hlongest y' w' heq
    · refine .inr ⟨?_, result?_of_answers (.cons rfl hres (.cons rfl hres' (.nil _))) rfl⟩
      rintro (x' | y') w' heq
      · exact hnone x' w' heq
      · exact hnone' y' w' heq

theorem optional (h : Reads γ r n p print value) :
    Reads γ r n (.optional p) (fun o : Option α => o.elim [] print)
      (fun o => .ofOption (o.map value)) := by
  intro c hc
  rcases h c hc with ⟨x, w, hx, hlongest, hres⟩ | ⟨hnone, hres⟩
  · refine .inl ⟨some x, w, hx, ?_, result?_of_answers (.cons rfl hres (.nil _)) rfl⟩
    rintro (_ | x') w' heq
    · have hlength := congrArg List.length (hx.symm.trans heq)
      simp only [Option.elim, List.nil_append, List.length_append] at hlength
      omega
    · exact hlongest x' w' heq
  · refine .inl ⟨none, Cursor.remaining c, rfl, ?_,
      result?_of_answers (.cons rfl hres (.nil _)) rfl⟩
    rintro (_ | x') w' heq
    · exact Nat.le_of_eq (congrArg List.length heq)
    · exact absurd heq (hnone x' w')

/-- The repetition reads as many phrases as any list of phrases ahead has, and as far. -/
theorem exists_row (h : Reads γ r n p print value) (hd : Delimited print ext n)
    (hfirst : Begins print first) (hext : ∀ s ∈ first, s ∉ ext)
    (finish : List (Value σ δ) → γ → Answer γ σ δ) (values : List (Value σ δ)) {c : γ}
    (hc : (Cursor.remaining c).length < n) :
    ∃ (xs : List α) (w : List σ) (answers : List (Answer γ σ δ)),
      Cursor.remaining c = xs.flatMap print ++ w ∧
      (∀ (xs' : List α) (w' : List σ), Cursor.remaining c = xs'.flatMap print ++ w' →
        xs'.length ≤ xs.length ∧ w.length ≤ w'.length) ∧
      Follows (fun q => q.parse r) (.repeatedly finish p values c) answers ∧
      Strategy.repeatedly finish p values c answers =
        .stop (finish (values ++ xs.map value)
          (Cursor.advanceBy (xs.flatMap print).length c)) := by
  obtain ⟨k, hk⟩ : ∃ k, (Cursor.remaining c).length < k := ⟨_, Nat.lt_succ_self _⟩
  induction k generalizing values c with
  | zero => exact absurd hk (Nat.not_lt_zero _)
  | succ k ih =>
    rcases h c hc with ⟨x, t, hx, hlongest, hres⟩ | ⟨hnone, hres⟩
    · let d := Cursor.advanceBy (print x).length c
      have ht : Cursor.remaining d = t := Cursor.remaining_advanceBy_of_eq hx
      have hpos := List.length_pos_iff.mpr (hfirst.ne_nil x)
      have hlen : (print x).length + t.length = (Cursor.remaining c).length := by
        rw [hx, List.length_append]
      have hmoves : Cursor.position d ≠ Cursor.position c := by
        rw [ne_eq, (Cursor.reaches_of_eq hx).position_eq_iff]
        omega
      obtain ⟨xs, w, answers, hxs, hfarthest, hfollows, hstop⟩ :=
        ih (values ++ [value x]) (c := d) (by rw [ht]; omega) (by rw [ht]; omega)
      have hnext : (fun later => Strategy.repeatedly finish p values c
          (.ok (.success (value x) d) :: later)) =
            Strategy.repeatedly finish p (values ++ [value x]) d := by
        funext later
        rw [Strategy.repeatedly, if_neg hmoves]
      refine ⟨x :: xs, w, _ :: answers, ?_, ?_, .cons rfl hres (hnext ▸ hfollows), ?_⟩
      · rw [hx, List.flatMap_cons, List.append_assoc, ← hxs, ht]
      · rintro (_ | ⟨x', xs'⟩) w' heq
        · have hw := congrArg List.length (ht.symm.trans hxs)
          have hw' := congrArg List.length heq
          simp only [List.flatMap_nil, List.nil_append, List.length_append] at hw hw'
          exact ⟨Nat.zero_le _, by omega⟩
        · rw [List.flatMap_cons, List.append_assoc] at heq
          obtain ⟨w'', ht', hle⟩ := hd.exists_rest (hx ▸ heq) (hx ▸ hc) (hlongest x' _ heq)
            (hfirst.flatMap_stops hext xs')
          obtain ⟨hcount, hle'⟩ := hfarthest xs' w'' (ht.trans ht')
          exact ⟨Nat.succ_le_succ hcount, Nat.le_trans hle' hle⟩
      · rw [congrFun hnext answers, hstop, ← Cursor.advanceBy_add, ← List.length_append,
          List.append_assoc, List.flatMap_cons, List.map_cons, List.singleton_append]
    · refine ⟨[], Cursor.remaining c, [.ok .failure], rfl, ?_, .cons rfl hres (.nil _), ?_⟩
      · rintro (_ | ⟨x', xs'⟩) w' heq
        · exact ⟨Nat.le_refl _, Nat.le_of_eq (congrArg List.length heq)⟩
        · exact absurd (heq.trans (List.append_assoc _ _ _)) (hnone x' _)
      · rw [List.map_nil, List.append_nil]
        rfl

theorem many (h : Reads γ r n p print value) (hd : Delimited print ext n)
    (hfirst : Begins print first) (hext : ∀ s ∈ first, s ∉ ext) (min : Nat) :
    Reads γ r n (.many p min)
      (fun xs : { xs : List α // min ≤ xs.length } => xs.val.flatMap print)
      (fun xs => .list (xs.val.map value)) := by
  intro c hc
  obtain ⟨xs, w, answers, hxs, hfarthest, hfollows, hstop⟩ := h.exists_row hd hfirst hext
    (fun values rest =>
      .ok (if min ≤ values.length then .success (.list values) rest else .failure)) [] hc
  have hres := result?_of_answers (p := .many p min) hfollows hstop
  rw [List.nil_append, List.length_map] at hres
  by_cases hmin : min ≤ xs.length
  · rw [if_pos hmin] at hres
    exact .inl ⟨⟨xs, hmin⟩, w, hxs, fun xs' w' heq => (hfarthest xs'.val w' heq).2, hres⟩
  · rw [if_neg hmin] at hres
    refine .inr ⟨fun xs' w' heq => ?_, hres⟩
    exact hmin (Nat.le_trans xs'.property (hfarthest xs'.val w' heq).1)

theorem many_zero (h : Reads γ r n p print value) (hd : Delimited print ext n)
    (hfirst : Begins print first) (hext : ∀ s ∈ first, s ∉ ext) :
    Reads γ r n (.many p 0) (fun xs : List α => xs.flatMap print)
      (fun xs => .list (xs.map value)) :=
  (h.many hd hfirst hext 0).map (fun xs => ⟨⟨xs, Nat.zero_le _⟩, rfl⟩) (fun _ => rfl) fun _ => rfl

/-- A bracket is read if it is ahead. -/
theorem symbol_cases [LawfulBEq σ] (r : Registry σ δ) (s : σ) (f : Value σ δ → Value σ δ) (c : γ) :
    (∃ w, Cursor.remaining c = s :: w ∧ Cursor.remaining (Cursor.advance c) = w ∧
      ((Parser.action (.symbol s) f).parse r c).result? =
        some (.ok (.success (f (.symbol s)) (Cursor.advance c)))) ∨
    (∀ w, Cursor.remaining c ≠ s :: w) ∧
      ((Parser.action (.symbol s) f).parse r c).result? = some (.ok .failure) := by
  have hreads := ((oneOf (r := r) [s] _).action f) c (Nat.lt_succ_self _)
  rcases hreads with ⟨⟨t, ht⟩, w, hw, -, hres⟩ | ⟨hnone, hres⟩
  · obtain rfl := List.mem_singleton.mp ht
    exact .inl ⟨w, hw, Cursor.remaining_advanceBy_of_eq hw, hres⟩
  · exact .inr ⟨fun w hw => hnone ⟨s, List.mem_singleton_self s⟩ w hw, hres⟩

/-- The closing bracket tells how far the phrase goes. -/
theorem bracketed [LawfulBEq σ] (h : Reads γ r n p print value) (hd : Delimited print ext n)
    (opening : σ) {closing : σ} (hext : closing ∉ ext) (f g : Value σ δ → Value σ δ) :
    Reads γ r (n + 1)
      (.select [.action (.symbol opening) f, p, .action (.symbol closing) g] 1)
      (fun x => opening :: print x ++ [closing]) value := by
  intro c hc
  rcases symbol_cases r opening f c with ⟨t, ht, ht', hres⟩ | ⟨hnone, hres⟩
  · have hlen : t.length < n := by
      rw [ht, List.length_cons] at hc
      omega
    have hinner (x' : α) (w' : List σ)
        (heq : Cursor.remaining c = (opening :: print x' ++ [closing]) ++ w') :
        t = print x' ++ (closing :: w') := by
      rw [ht] at heq
      simpa using heq
    rcases h (Cursor.advance c) (ht' ▸ hlen) with ⟨x, u, hu, hlongest, hres'⟩ | ⟨hnone', hres'⟩
    · have hu' := Cursor.remaining_advanceBy_of_eq hu
      rw [ht'] at hu hlongest
      -- a phrase in brackets is the longest one there is, for the bracket cannot go on with it
      have hclosing (x' : α) (w' : List σ)
          (heq : Cursor.remaining c = (opening :: print x' ++ [closing]) ++ w') :
          u = closing :: w' := by
        have hx' := hinner x' w' heq
        have hsame : x' = x := hd x' x _ u (hx'.symm.trans hu) (hx' ▸ hlen) (stops_cons hext w')
          (hlongest x' _ hx')
        rw [hsame, hu] at hx'
        exact List.append_cancel_left hx'
      rcases symbol_cases r closing g (Cursor.advanceBy (print x).length (Cursor.advance c)) with
        ⟨w, hw, -, hres''⟩ | ⟨hnone', hres''⟩
      · have hw' : u = closing :: w := hu'.symm.trans hw
        refine .inl ⟨x, w, ?_, fun x' w' heq => ?_, ?_⟩
        · rw [ht, hu, hw']
          simp
        · have htail := List.tail_eq_of_cons_eq (hw'.symm.trans (hclosing x' w' heq))
          exact Nat.le_of_eq (congrArg List.length htail)
        · have hlength : (opening :: print x ++ [closing]).length = 1 + (print x).length + 1 := by
            simp [Nat.add_comm]
          rw [hlength, Cursor.advanceBy_add, Cursor.advanceBy_add]
          exact result?_of_answers
            (.cons rfl hres (.cons rfl hres' (.cons rfl hres'' (.nil _)))) rfl
      · refine .inr ⟨fun x' w' heq => hnone' w' (hu'.trans (hclosing x' w' heq)), ?_⟩
        exact result?_of_answers (.cons rfl hres (.cons rfl hres' (.cons rfl hres'' (.nil _)))) rfl
    · refine .inr ⟨fun x' w' heq => hnone' x' _ (ht'.trans (hinner x' w' heq)), ?_⟩
      exact result?_of_answers (.cons rfl hres (.cons rfl hres' (.nil _))) rfl
  · refine .inr ⟨fun x' w' heq => ?_, result?_of_answers (.cons rfl hres (.nil _)) rfl⟩
    exact hnone _ (heq.trans (List.append_assoc [opening] _ _))

end Reads

end Parser

end Descent
