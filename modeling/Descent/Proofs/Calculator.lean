import Descent.Cursor.Slice
import Descent.Grammar.Calculator
import Descent.Proofs.Reading

/-!
# The calculator calculates

The text of an expression tells the expression. The calculator matches just where an expression is
ahead, reads the longest one, and comes to what that expression comes to, whatever there is to
compute with.
-/

namespace Descent.Calculator

open Cursor (advanceBy remaining)
open Descent.Parser (Reads)

variable {γ δ : Type} [Cursor γ Char]

section Chain

variable {α : Type} {ops ext : List Char} {n : Nat} {print : α → List Char} {value : α → δ}

/-- The text of operands with operators in between. -/
def printChain (ops : List Char) (print : α → List Char) (x : α × List ({ op // op ∈ ops } × α)) :
    List Char :=
  print x.1 ++ x.2.flatMap fun y => [y.1.val] ++ print y.2

theorem step_begins (ops : List Char) (print : α → List Char) :
    Begins (fun y : { op // op ∈ ops } × α => [y.1.val] ++ print y.2) ops :=
  fun y => ⟨y.1.val, y.1.property, print y.2, rfl⟩

theorem step_delimited (ops : List Char) (hd : Delimited print ext n) :
    Delimited (fun y : { op // op ∈ ops } × α => [y.1.val] ++ print y.2) ext n :=
  ((Delimited.singleton n).subtype (· ∈ ops)).pair hd fun _ _ _ => List.not_mem_nil

theorem chain_delimited (hd : Delimited print ext n) (hops : ∀ op ∈ ops, op ∉ ext) :
    Delimited (printChain ops print) (ext ++ ops) n := by
  have hrest := (step_delimited ops hd).list (step_begins ops print) hops
  exact (hd.pair hrest ((step_begins ops print).flatMap_stops hops)).mono (by simp)

variable (A : Arithmetic δ)

/-- The actions of a chain work off the operators from the left. -/
theorem folded_chain (x : α × List ({ op // op ∈ ops } × α)) :
    folded A (.pair (.datum (value x.1))
        (.list (x.2.map fun y => .pair (.symbol y.1.val) (.datum (value y.2))))) =
      .datum (x.2.foldl (fun lhs y => A.apply lhs y.1.val (value y.2)) (value x.1)) := by
  obtain ⟨first, rest⟩ := x
  simp only [folded]
  generalize value first = lhs
  induction rest generalizing lhs with
  | nil => rfl
  | cons y rest ih => exact ih _

variable [LawfulCursor γ] {r : Registry Char δ} {p : Parser Char δ}

theorem chain_reads (h : Reads γ r n p print (fun x => .datum (value x)))
    (hd : Delimited print ext n) (hops : ∀ op ∈ ops, op ∉ ext) :
    Reads γ r n (chain A ops p) (printChain ops print) (fun x =>
      .datum (x.2.foldl (fun lhs y => A.apply lhs y.1.val (value y.2)) (value x.1))) := by
  have hop := (Delimited.singleton n).subtype (· ∈ ops)
  have hstep := (Reads.oneOf ops n).pair h hop fun _ _ _ => List.not_mem_nil
  have hrest := hstep.many_zero (step_delimited ops hd) (step_begins ops print) hops
  have hpair := h.pair hrest hd ((step_begins ops print).flatMap_stops hops)
  refine (hpair.action (folded A)).map Function.surjective_id (fun _ => rfl) fun x => ?_
  exact (folded_chain A x).symm

end Chain

theorem multOps_not_mem : ∀ op ∈ multOps, op ∉ digits := by
  simp [multOps, digits]

theorem addOps_not_mem : ∀ op ∈ addOps, op ∉ digits ++ multOps := by
  simp [addOps, multOps, digits]

theorem closing_not_mem : ')' ∉ digits ++ multOps ++ addOps := by
  simp [addOps, multOps, digits]

theorem digit_begins : Begins (fun s : { s // s ∈ digits } => [s.val]) digits :=
  fun s => ⟨s.val, s.property, [], rfl⟩

theorem Digits.print_eq_flatMap (ds : Digits) : ds.print = ds.val.flatMap fun s => [s.val] := by
  rw [print, List.map_eq_flatMap]

theorem Digits.begins : Begins print digits := by
  rintro ⟨_ | ⟨d, ds⟩, hlength⟩
  · cases hlength
  · exact ⟨d.val, d.property, ds.map Subtype.val, rfl⟩

theorem Digits.delimited (n : Nat) : Delimited print digits n := by
  have hlist := ((Delimited.singleton n).subtype (· ∈ digits)).list digit_begins
    fun _ _ => List.not_mem_nil
  exact (hlist.subtype (1 ≤ ·.length)).map Function.surjective_id Digits.print_eq_flatMap

namespace Simple

def ofSum : Digits ⊕ Expr → Simple := Sum.elim .number .parens

theorem ofSum_surjective : Function.Surjective ofSum := by
  rintro (ds | e)
  · exact ⟨.inl ds, rfl⟩
  · exact ⟨.inr e, rfl⟩

theorem print_ofSum (x : Digits ⊕ Expr) :
    (ofSum x).print = Sum.elim Digits.print (fun e => '(' :: e.print ++ [')']) x := by
  cases x <;> simp [ofSum, print]

theorem parens_begins : Begins (fun e : Expr => '(' :: e.print ++ [')']) ['('] :=
  fun e => ⟨'(', List.mem_singleton_self _, e.print ++ [')'], rfl⟩

theorem digits_not_mem : ∀ s ∈ digits, s ∉ ['('] := by
  simp [digits]

theorem begins : Begins print ('(' :: digits) := by
  rintro (ds | e)
  · obtain ⟨s, hs, w, hw⟩ := Digits.begins ds
    exact ⟨s, List.mem_cons_of_mem _ hs, w, by rw [print, hw]⟩
  · exact ⟨'(', List.mem_cons_self, e.print ++ [')'], by rw [print]; rfl⟩

theorem delimited {ext : List Char} {n : Nat} (h : Delimited Expr.print ext n) (hext : ')' ∉ ext) :
    Delimited print digits (n + 1) := by
  have hsum := (Digits.delimited (n + 1)).sum (h.bracketed '(' hext) Digits.begins parens_begins
    digits_not_mem
  rw [List.append_nil] at hsum
  exact hsum.map ofSum_surjective print_ofSum

end Simple

namespace Unary

def ofPair (x : Option { s // s ∈ ['-'] } × Simple) : Unary := .mk x.1.isSome x.2

theorem ofPair_surjective : Function.Surjective ofPair := by
  rintro ⟨_ | _, operand⟩
  · exact ⟨(none, operand), rfl⟩
  · exact ⟨(some ⟨'-', List.mem_singleton_self _⟩, operand), rfl⟩

theorem print_ofPair (x : Option { s // s ∈ ['-'] } × Simple) :
    (ofPair x).print = x.1.elim [] (fun s => [s.val]) ++ x.2.print := by
  obtain ⟨_ | ⟨s, hs⟩, operand⟩ := x
  · simp [ofPair, print]
  · obtain rfl := List.mem_singleton.mp hs
    simp [ofPair, print]

theorem sign_delimited (n : Nat) :
    Delimited (fun o : Option { s // s ∈ ['-'] } => o.elim [] fun s => [s.val]) ['-'] n :=
  ((Delimited.singleton n).subtype (· ∈ ['-'])).option fun s => ⟨s.val, s.property, [], rfl⟩

theorem not_mem_sign : ∀ s ∈ '(' :: digits, s ∉ ['-'] := by
  simp [digits]

theorem delimited {n : Nat} (h : Delimited Simple.print digits n) : Delimited print digits n :=
  ((sign_delimited n).pair_of_begins h Simple.begins not_mem_sign).map ofPair_surjective
    print_ofPair

end Unary

namespace Mult

def ofPair (x : Unary × List (MultOp × Unary)) : Mult := .mk x.1 x.2

theorem ofPair_surjective : Function.Surjective ofPair := by
  rintro ⟨first, rest⟩
  exact ⟨(first, rest), rfl⟩

theorem print_ofPair (x : Unary × List (MultOp × Unary)) :
    (ofPair x).print = printChain multOps Unary.print x := by
  rw [ofPair, print, printFactors_eq_flatMap]
  rfl

theorem delimited {n : Nat} (h : Delimited Unary.print digits n) :
    Delimited print (digits ++ multOps) n :=
  (chain_delimited h multOps_not_mem).map ofPair_surjective print_ofPair

end Mult

namespace Expr

def ofPair (x : Mult × List (AddOp × Mult)) : Expr := .mk x.1 x.2

theorem ofPair_surjective : Function.Surjective ofPair := by
  rintro ⟨first, rest⟩
  exact ⟨(first, rest), rfl⟩

theorem print_ofPair (x : Mult × List (AddOp × Mult)) :
    (ofPair x).print = printChain addOps Mult.print x := by
  rw [ofPair, print, printTerms_eq_flatMap]
  rfl

/-- Only a digit or an operator can go on with an expression. -/
theorem delimited (n : Nat) : Delimited print (digits ++ multOps ++ addOps) n := by
  induction n with
  | zero => exact fun x x' z z' _ hlen => absurd hlen (Nat.not_lt_zero _)
  | succ n ih =>
    have hmult := Mult.delimited (Unary.delimited (Simple.delimited ih closing_not_mem))
    exact (chain_delimited hmult addOps_not_mem).map ofPair_surjective print_ofPair

theorem print_injective : Function.Injective print := Delimited.injective delimited

end Expr

section Reads

variable (A : Arithmetic δ) {n : Nat} [LawfulCursor γ] {r : Registry Char δ}

theorem number_reads (r : Registry Char δ) (n : Nat) :
    Reads γ r n (number A) Digits.print (fun ds => .datum (A.number ds.print)) := by
  have hmany := (Reads.oneOf (γ := γ) (r := r) digits n).many
    ((Delimited.singleton n).subtype (· ∈ digits)) digit_begins (fun _ _ => List.not_mem_nil) 1
  refine (hmany.action fun v => .datum (A.number v.symbols)).map Function.surjective_id
    Digits.print_eq_flatMap fun ds => ?_
  rw [Value.symbols_list, List.flatMap_map, Digits.print_eq_flatMap]
  rfl

theorem simple_reads {ext : List Char}
    (h : Reads γ r n (.reference grammar "expr") Expr.print (fun e => .datum (e.eval A)))
    (hd : Delimited Expr.print ext n) (hext : ')' ∉ ext) :
    Reads γ r (n + 1) (simple A) Simple.print (fun x => .datum (x.eval A)) := by
  have hparens := h.bracketed hd '(' hext (fun _ => .datum A.bracket) fun _ => .datum A.bracket
  refine ((number_reads A r (n + 1)).choice hparens Digits.begins Simple.parens_begins
    Simple.digits_not_mem).map Simple.ofSum_surjective Simple.print_ofSum ?_
  rintro (ds | e) <;> simp [Simple.ofSum, Simple.eval]

theorem unary_reads (h : Reads γ r n (simple A) Simple.print (fun x => .datum (x.eval A))) :
    Reads γ r n (unary A) Unary.print (fun x => .datum (x.eval A)) := by
  have hpair := (Reads.oneOf ['-'] n).optional.pair h (Unary.sign_delimited n)
    (Simple.begins.stops Unary.not_mem_sign)
  refine (hpair.action (signed A)).map Unary.ofPair_surjective Unary.print_ofPair ?_
  rintro ⟨_ | _, operand⟩ <;> simp [Unary.ofPair, Unary.eval, signed, Value.ofOption]

theorem mult_reads (h : Reads γ r n (unary A) Unary.print (fun x => .datum (x.eval A)))
    (hd : Delimited Unary.print digits n) :
    Reads γ r n (mult A) Mult.print (fun x => .datum (x.eval A)) := by
  refine (chain_reads A h hd multOps_not_mem).map Mult.ofPair_surjective Mult.print_ofPair fun x => ?_
  rw [Mult.ofPair, Mult.eval, evalFactors_eq_foldl]

theorem add_reads (h : Reads γ r n (mult A) Mult.print (fun x => .datum (x.eval A)))
    (hd : Delimited Mult.print (digits ++ multOps) n) :
    Reads γ r n (add A) Expr.print (fun e => .datum (e.eval A)) := by
  refine (chain_reads A h hd addOps_not_mem).map Expr.ofPair_surjective Expr.print_ofPair fun x => ?_
  rw [Expr.ofPair, Expr.eval, evalTerms_eq_foldl]

theorem expr_reads (n : Nat) :
    Reads γ (rules A) n (.reference grammar "expr") Expr.print (fun e => .datum (e.eval A)) := by
  induction n with
  | zero => exact fun c hc => absurd hc (Nat.not_lt_zero _)
  | succ n ih =>
    have hd := Expr.delimited n
    have hsimple := simple_reads A ih hd closing_not_mem
    have hdsimple := Simple.delimited hd closing_not_mem
    have hmult := mult_reads A (unary_reads A hsimple) (Unary.delimited hdsimple)
    have hadd := add_reads A hmult (Mult.delimited (Unary.delimited hdsimple))
    exact hadd.reference (resolve_expr A)

end Reads

variable [LawfulCursor γ] (A : Arithmetic δ)

/-- An expression at the start of the text, such that no longer one is there. -/
def Expr.IsLongest (e : Expr) (w : List Char) : Prop :=
  e.print <+: w ∧ ∀ e' : Expr, e'.print <+: w → e'.print.length ≤ e.print.length

theorem result?_expr (c : γ) :
    (∃ e : Expr, e.IsLongest (remaining c) ∧
      ((rules A).parse grammar "expr" c).result? =
        some (.ok (.success (.datum (e.eval A)) (advanceBy e.print.length c)))) ∨
    (∀ e : Expr, ¬ e.print <+: remaining c) ∧
      ((rules A).parse grammar "expr" c).result? = some (.ok .failure) := by
  have hresult : ((rules A).parse grammar "expr" c).result? =
      ((Parser.reference grammar "expr").parse (rules A) c).result? := by
    rw [Registry.result?_parse, Parser.result?_parse_reference]
  rw [hresult]
  rcases expr_reads A _ c (Nat.lt_succ_self _) with ⟨e, w, he, hlongest, hres⟩ | ⟨hnone, hres⟩
  · refine .inl ⟨e, ⟨⟨w, he.symm⟩, fun e' hprefix => ?_⟩, hres⟩
    obtain ⟨w', he'⟩ := hprefix
    have hle := hlongest e' w' he'.symm
    have hlength := congrArg List.length (he'.trans he)
    simp only [List.length_append] at hlength
    omega
  · refine .inr ⟨fun e hprefix => ?_, hres⟩
    obtain ⟨w, he⟩ := hprefix
    exact hnone e w he.symm

theorem result?_line (c : γ) :
    (∃ e : Expr, e.print = remaining c ∧
      ((rules A).parse grammar "line" c).result? =
        some (.ok (.success (.datum (e.eval A)) (advanceBy e.print.length c)))) ∨
    (∀ e : Expr, e.print ≠ remaining c) ∧
      ((rules A).parse grammar "line" c).result? = some (.ok .failure) := by
  have hresult : ((rules A).parse grammar "line" c).result? = (line.parse (rules A) c).result? := by
    rw [Registry.result?_parse, resolve_line]
    rfl
  have hline (o : Outcome γ (Value Char δ))
      (ho : ((Parser.pair (.reference grammar "expr") (.endOfInput .unit)).parse (rules A)
        c).result? = some (.ok o)) :
      (line.parse (rules A) c).result? = some (.ok (o.map first)) :=
    Parser.result?_of_answers (.cons rfl ho (.nil _)) rfl
  rw [hresult]
  rcases expr_reads A _ c (Nat.lt_succ_self _) with ⟨e, w, he, hlongest, hres⟩ | ⟨hnone, hres⟩
  · let rest := advanceBy e.print.length c
    have hend : ((Parser.endOfInput .unit).parse (rules A) rest).result? =
        some (.ok (if Cursor.isExhausted rest then .success .unit rest else .failure)) :=
      Parser.result?_of_answers (.nil _) rfl
    have hrest : remaining rest = w := Cursor.remaining_advanceBy_of_eq he
    by_cases hnil : w = []
    · rw [if_pos ((Cursor.isExhausted_iff rest).mpr (hrest.trans hnil))] at hend
      refine .inl ⟨e, by rw [he, hnil, List.append_nil], ?_⟩
      exact hline (.success (.pair (.datum (e.eval A)) .unit) rest)
        (Parser.result?_of_answers (.cons rfl hres (.cons rfl hend (.nil _))) rfl)
    · rw [if_neg (mt (Cursor.isExhausted_iff rest).mp (hrest ▸ hnil))] at hend
      refine .inr ⟨fun e' he' => ?_, hline .failure
        (Parser.result?_of_answers (.cons rfl hres (.cons rfl hend (.nil _))) rfl)⟩
      have hle := hlongest e' [] (by rw [he', List.append_nil])
      exact hnil (List.length_eq_zero_iff.mp (Nat.le_zero.mp hle))
  · refine .inr ⟨fun e he => hnone e [] (by rw [he, List.append_nil]), hline .failure ?_⟩
    exact Parser.result?_of_answers (.cons rfl hres (.nil _)) rfl

omit [Cursor γ Char] [LawfulCursor γ] in
/-- What is known of a run that comes to a phrase that is there, or fails where none is. -/
theorem success_iff_of_cases {res : Option (Answer γ Char δ)} {P Q : Expr → Prop}
    {value : Expr → Value Char δ} {rest : Expr → γ} (hPQ : ∀ e, P e → Q e)
    (h : (∃ e, P e ∧ res = some (.ok (.success (value e) (rest e)))) ∨
      (∀ e, ¬ Q e) ∧ res = some (.ok .failure)) :
    (∃ o, res = some (.ok o)) ∧
    ((∃ v d, res = some (.ok (.success v d))) ↔ ∃ e, Q e) ∧
    ∀ v d, res = some (.ok (.success v d)) → ∃ e, P e ∧ v = value e ∧ d = rest e := by
  rcases h with ⟨e, he, rfl⟩ | ⟨hnone, rfl⟩
  · refine ⟨⟨_, rfl⟩, ⟨fun _ => ⟨e, hPQ e he⟩, fun _ => ⟨_, _, rfl⟩⟩, fun v d hres => ?_⟩
    cases hres
    exact ⟨e, he, rfl, rfl⟩
  · refine ⟨⟨_, rfl⟩, ⟨fun hres => ?_, fun hQ => ?_⟩, fun v d hres => ?_⟩
    · obtain ⟨v, d, hres⟩ := hres
      cases hres
    · obtain ⟨e, he⟩ := hQ
      exact absurd he (hnone e)
    · cases hres

/-- No two expressions have one text. The rule of expressions matches just where an expression is
ahead; then it reads the longest one, with the value of that expression. The rule of lines matches
just where an expression is all that is ahead, and then with the value of that expression and at the
end of the input. Neither rule ends in an error, and both do end. -/
theorem parse_calculates (c : γ) :
    Function.Injective Expr.print ∧
    ((∃ o, ((rules A).parse grammar "expr" c).result? = some (.ok o)) ∧
      ((∃ v d, ((rules A).parse grammar "expr" c).result? = some (.ok (.success v d))) ↔
        ∃ e : Expr, e.print <+: remaining c) ∧
      ∀ v d, ((rules A).parse grammar "expr" c).result? = some (.ok (.success v d)) →
        ∃ e : Expr, e.IsLongest (remaining c) ∧
          v = .datum (e.eval A) ∧ d = advanceBy e.print.length c) ∧
    ((∃ o, ((rules A).parse grammar "line" c).result? = some (.ok o)) ∧
      ((∃ v d, ((rules A).parse grammar "line" c).result? = some (.ok (.success v d))) ↔
        ∃ e : Expr, e.print = remaining c) ∧
      ∀ v d, ((rules A).parse grammar "line" c).result? = some (.ok (.success v d)) →
        ∃ e : Expr, (e.print = remaining c ∧
            Cursor.isExhausted (advanceBy e.print.length c) = true) ∧
          v = .datum (e.eval A) ∧ d = advanceBy e.print.length c) := by
  refine ⟨Expr.print_injective, success_iff_of_cases (fun e he => he.1) (result?_expr A c),
    success_iff_of_cases (fun e he => he.1) ?_⟩
  rcases result?_line A c with ⟨e, he, hres⟩ | ⟨hnone, hres⟩
  · have hexhausted : Cursor.isExhausted (advanceBy e.print.length c) = true := by
      rw [Cursor.isExhausted_iff]
      exact Cursor.remaining_advanceBy_of_eq (by rw [he, List.append_nil])
    exact .inl ⟨e, ⟨he, hexhausted⟩, hres⟩
  · exact .inr ⟨hnone, hres⟩

/-- Whole numbers. Division drops the remainder, and what is divided by zero is zero. -/
def integers : Arithmetic Int where
  number ds := ds.foldl (fun n d => n * 10 + (d.toNat - '0'.toNat : Nat)) 0
  negate := Neg.neg
  apply lhs op rhs :=
    match op with
    | '+' => lhs + rhs
    | '-' => lhs - rhs
    | '*' => lhs * rhs
    | _ => lhs.tdiv rhs
  bracket := 0

/-- An expression and one more operator. -/
def text : Array Char := #['-', '(', '2', '-', '3', '-', '4', ')', '*', '2', '+']

/-- The last operator is given back, so that there is a value, but not for a line. -/
theorem text_calculates :
    (∃ e : Expr, e.IsLongest text.toList ∧ e.eval integers = 10 ∧
      SliceCursor.reading text 10 = advanceBy e.print.length (SliceCursor.ofArray text)) ∧
    (∀ e : Expr, e.print ≠ text.toList) := by
  obtain ⟨-, ⟨-, -, hexpr⟩, -, hline, -⟩ := parse_calculates integers (SliceCursor.ofArray text)
  constructor
  · obtain ⟨e, he, hvalue, hrest⟩ := hexpr (.datum 10) (.reading text 10) rfl
    injection hvalue with hvalue
    exact ⟨e, he, hvalue.symm, hrest⟩
  · intro e he
    obtain ⟨v, d, hres⟩ := hline.mpr ⟨e, he⟩
    have hfailure : ((rules integers).parse grammar "line" (SliceCursor.ofArray text)).result? =
      some (.ok .failure) := rfl
    cases hres.symm.trans hfailure

end Descent.Calculator
