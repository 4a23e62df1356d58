import PZero.Analysis.Program
import PZero.Lowering.Expr
import PZero.Proofs.Lowering.Place
import PZero.Proofs.Machine.Instructions

/-! # Int literals

The text of an int literal denotes a number: an optional sign and decimal digits. If the number
is an int of 32 bits, it is the value of the literal, and otherwise zero stands in for it and
the text is reported. A minus right in front of the literal becomes part of its text, which
lets the least int through; in front of parentheses it is carried out when the program runs,
and wherever both forms are accepted they have the same value.
-/
namespace PZero.Analysis
open Bytecode Lowering Machine

/-! ## Numerals -/

/-- The number that a digit stands for. -/
def digitValue (c : Char) : Nat := c.toNat - '0'.toNat

/-- One or more decimal digits, the last one of which counts ones. -/
structure Numeral (ds : List Char) (n : Nat) : Prop where
  nonempty : ds ≠ []
  digits : ∀ c ∈ ds, '0' ≤ c ∧ c ≤ '9'
  value : n = Nat.ofDigits 10 (ds.reverse.map digitValue)

/-- An optional sign and a numeral. -/
inductive Denotes : List Char → Int → Prop
  | unsigned {ds n} : Numeral ds n → Denotes ds n
  | plus {ds n} : Numeral ds n → Denotes ('+' :: ds) n
  | minus {ds n} : Numeral ds n → Denotes ('-' :: ds) (-n)

theorem isDigit_iff {c : Char} : c.isDigit = true ↔ '0' ≤ c ∧ c ≤ '9' := by
  simp [Char.isDigit, Char.le_def]

theorem natOfDigits_eq (ds : List Char) :
    Decimal.natOfDigits ds = Nat.ofDigits 10 (ds.reverse.map digitValue) := by
  induction ds using List.reverseRecOn with
  | nil => rfl
  | append_singleton ds c ih =>
    rw [List.reverse_append, List.reverse_singleton, List.singleton_append, List.map_cons,
      Nat.ofDigits_cons, ← ih, Nat.add_comm, digitValue]
    simp only [Decimal.natOfDigits, List.foldl_append, List.foldl_cons, List.foldl_nil]

theorem numeral_iff {ds : List Char} {n : Nat} : Numeral ds n ↔
    (ds.isEmpty || !ds.all Char.isDigit) = false ∧ n = Decimal.natOfDigits ds := by
  rw [natOfDigits_eq, Bool.or_eq_false_iff, Bool.not_eq_false', List.all_eq_true,
    List.isEmpty_eq_false_iff]
  constructor
  · rintro ⟨hnonempty, hdigits, hvalue⟩
    exact ⟨⟨hnonempty, fun c hc => isDigit_iff.mpr (hdigits c hc)⟩, hvalue⟩
  · rintro ⟨⟨hnonempty, hdigits⟩, hvalue⟩
    exact ⟨hnonempty, fun c hc => isDigit_iff.mp (hdigits c hc), hvalue⟩

namespace Numeral
variable {ds : List Char} {c : Char} {n n' : Nat}

theorem unique (h : Numeral ds n) (h' : Numeral ds n') : n = n' := h.value.trans h'.value.symm

/-- A sign is no digit. -/
theorem ne_cons (h : Numeral ds n) (hc : ¬ ('0' ≤ c ∧ c ≤ '9')) (rest : List Char) :
    ds ≠ c :: rest := by
  rintro rfl
  exact hc (h.digits c List.mem_cons_self)

end Numeral

/-! ## The value of a text -/

/-- Whether a text begins with a minus, and the text without its sign. -/
def withoutSign : List Char → Bool × List Char
  | '-' :: ds => (true, ds)
  | '+' :: ds => (false, ds)
  | ds => (false, ds)

/-- The number that a numeral and the sign in front of it denote. -/
def withSign (negative : Bool) (n : Nat) : Int := if negative then -(n : Int) else n

theorem Numeral.withoutSign_eq {ds : List Char} {n : Nat} (h : Numeral ds n) :
    withoutSign ds = (false, ds) := by
  unfold withoutSign
  split
  · next rest => exact absurd rfl (h.ne_cons (by decide) rest)
  · next rest => exact absurd rfl (h.ne_cons (by decide) rest)
  · rfl

theorem denotes_iff {cs : List Char} {v : Int} : Denotes cs v ↔
    ∃ n, Numeral (withoutSign cs).2 n ∧ v = withSign (withoutSign cs).1 n := by
  constructor
  · intro h
    cases h with
    | @unsigned _ n hn => exact ⟨n, hn.withoutSign_eq.symm ▸ hn, by rw [hn.withoutSign_eq]; rfl⟩
    | plus hn => exact ⟨_, hn, rfl⟩
    | minus hn => exact ⟨_, hn, rfl⟩
  · rintro ⟨n, hn, rfl⟩
    unfold withoutSign at hn ⊢
    split at hn
    · exact .minus hn
    · exact .plus hn
    · exact .unsigned hn

/-- The number is an int of 32 bits. -/
def Fits (v : Int) : Prop := -2 ^ 31 ≤ v ∧ v < 2 ^ 31

theorem fits_toInt (v : Int32) : Fits v.toInt := ⟨v.le_toInt, v.toInt_lt⟩

theorem toInt_ofInt_of_fits {v : Int} (h : Fits v) : (Int32.ofInt v).toInt = v :=
  Int32.toInt_ofInt_of_le h.1 h.2

/-- The int of 32 bits that is a number. -/
def ofNumber? (n : Int) : Option Int32 :=
  if Int32.minValue.toInt ≤ n && n ≤ Int32.maxValue.toInt then some (Int32.ofInt n) else none

theorem ofNumber?_eq_some_iff {n : Int} {v : Int32} : ofNumber? n = some v ↔ v.toInt = n := by
  have hcondition : (Int32.minValue.toInt ≤ n && n ≤ Int32.maxValue.toInt) = true ↔ Fits n := by
    rw [Bool.and_eq_true, decide_eq_true_iff, decide_eq_true_iff, Int32.toInt_minValue,
      Int32.toInt_maxValue, Fits]
    omega
  by_cases hfits : Fits n
  · rw [ofNumber?, if_pos (hcondition.mpr hfits), Option.some.injEq, ← Int32.toInt_inj,
      toInt_ofInt_of_fits hfits, eq_comm]
  · rw [ofNumber?, if_neg (hcondition.not.mpr hfits)]
    exact iff_of_false nofun fun hv => hfits (hv ▸ fits_toInt v)

/-- A text is read as the int that it denotes. -/
theorem intOfText?_eq_some_iff {s : String} {v : Int32} :
    intOfText? s = some v ↔ Denotes s.toList v.toInt := by
  have htext : intOfText? s =
      if (withoutSign s.toList).2.isEmpty || !(withoutSign s.toList).2.all Char.isDigit then none
      else ofNumber?
        (withSign (withoutSign s.toList).1 (Decimal.natOfDigits (withoutSign s.toList).2)) := rfl
  rw [htext, denotes_iff]
  generalize withoutSign s.toList = parts
  obtain ⟨negative, ds⟩ := parts
  by_cases hdigits : (ds.isEmpty || !ds.all Char.isDigit) = true
  · rw [if_pos hdigits]
    refine iff_of_false nofun fun ⟨n, hn, _⟩ => ?_
    exact Bool.false_ne_true ((numeral_iff.mp hn).1.symm.trans hdigits)
  · rw [if_neg hdigits, ofNumber?_eq_some_iff]
    constructor
    · exact fun hv => ⟨_, numeral_iff.mpr ⟨eq_false_of_ne_true hdigits, rfl⟩, hv⟩
    · rintro ⟨n, hn, hv⟩
      rw [hv, (numeral_iff.mp hn).2]

theorem exists_intOfText?_iff {s : String} :
    (∃ v, intOfText? s = some v) ↔ ∃ v, Denotes s.toList v ∧ Fits v := by
  constructor
  · rintro ⟨v, hv⟩
    exact ⟨v.toInt, intOfText?_eq_some_iff.mp hv, fits_toInt v⟩
  · rintro ⟨v, hv, hfits⟩
    exact ⟨Int32.ofInt v, intOfText?_eq_some_iff.mpr (by rwa [toInt_ofInt_of_fits hfits])⟩

/-! ## What becomes of a literal -/

/-- An int literal of the typed program that has the given value. -/
def IsInt (typed : Typed.Literal) (v : Int) : Prop := ∃ w : Int32, typed = .int w ∧ w.toInt = v

/-- The literal with a text is an int as the text has it, or else zero and a report. -/
structure TakenAs (text : String) (span : Span) (typed : Typed.Literal)
    (reports : List Diagnostic) : Prop where
  value : ∀ v, IsInt typed v ∧ reports = [] ↔ Denotes text.toList v ∧ Fits v
  overflow : (¬ ∃ v, Denotes text.toList v ∧ Fits v) →
    IsInt typed 0 ∧ reports = [.intOverflow text span]

/-- A minus and the literal with a text, which denotes `n`, are the int `-n`, or else zero and a
report of both together. -/
structure Negated (text : String) (span : Span) (n : Nat) (typed : Typed.Literal)
    (reports : List Diagnostic) : Prop where
  value : IsInt typed (-n) ∧ reports = [] ↔ n ≤ 2 ^ 31
  overflow : 2 ^ 31 < n → IsInt typed 0 ∧ reports = [.intOverflow ("-" ++ text) span]

theorem takenAs_int (text : String) (span : Span) :
    TakenAs text span (typedLiteral (.int text span)) (diagnoseLiteral (.int text span)) := by
  cases h : intOfText? text with
  | some w =>
    have hw : Denotes text.toList w.toInt := intOfText?_eq_some_iff.mp h
    have htyped : typedLiteral (.int text span) = .int w := by rw [typedLiteral, h]; rfl
    have hreports : diagnoseLiteral (.int text span) = [] := by rw [diagnoseLiteral, h]; rfl
    rw [htyped, hreports]
    refine ⟨fun v => ⟨?_, fun ⟨hv, hfits⟩ => ?_⟩, fun hno => ?_⟩
    · rintro ⟨⟨w', hw', rfl⟩, -⟩
      cases hw'
      exact ⟨hw, fits_toInt w⟩
    · have hread : intOfText? text = some (Int32.ofInt v) :=
        intOfText?_eq_some_iff.mpr (by rwa [toInt_ofInt_of_fits hfits])
      rw [Option.some.inj (h.symm.trans hread)]
      exact ⟨⟨_, rfl, toInt_ofInt_of_fits hfits⟩, rfl⟩
    · exact absurd ⟨w.toInt, hw, fits_toInt w⟩ hno
  | none =>
    have htyped : typedLiteral (.int text span) = .int 0 := by rw [typedLiteral, h]; rfl
    have hreports : diagnoseLiteral (.int text span) = [.intOverflow text span] := by
      rw [diagnoseLiteral, h]
      rfl
    have hno : ¬ ∃ v, Denotes text.toList v ∧ Fits v := by
      rw [← exists_intOfText?_iff, h]
      rintro ⟨v, hv⟩
      cases hv
    rw [htyped, hreports]
    refine ⟨fun v => iff_of_false (fun hv => nomatch hv.2) fun hv => hno ⟨v, hv⟩, fun _ => ?_⟩
    exact ⟨⟨0, rfl, rfl⟩, rfl⟩

/-- Behind a minus a numeral denotes its number negated. -/
theorem denotes_minus_iff {text : String} {n : Nat} (h : Numeral text.toList n) {v : Int} :
    Denotes ("-" ++ text).toList v ↔ v = -n := by
  have hcs : ("-" ++ text).toList = '-' :: text.toList := String.toList_append
  rw [hcs, denotes_iff]
  constructor
  · rintro ⟨n', hn', rfl⟩
    rw [h.unique hn']
    rfl
  · rintro rfl
    exact ⟨n, h, rfl⟩

theorem negated_of_takenAs {text : String} {span : Span} {n : Nat} {typed : Typed.Literal}
    {reports : List Diagnostic} (hn : Numeral text.toList n)
    (h : TakenAs ("-" ++ text) span typed reports) : Negated text span n typed reports := by
  have hfits : Fits (-n) ↔ n ≤ 2 ^ 31 := by
    unfold Fits
    omega
  refine ⟨?_, fun hlarge => h.overflow ?_⟩
  · rw [h.value, denotes_minus_iff hn, hfits]
    exact and_iff_right rfl
  · rintro ⟨v, hv, hle⟩
    rw [(denotes_minus_iff hn).mp hv, hfits] at hle
    omega

/-! ## What the code of a literal does -/

/-- Wherever the code stands in a routine, a run that has steps left for it goes on behind it with
the value on the stack, and with nothing else changed. -/
def Pushes (code : Code) (v : Value) : Prop :=
  ∀ (c : Setting) (f : Frame) (callers : List Frame) (s : Store), CodeAt f.routine f.pc code →
    c.options.exceeded? (s.steps + code.length) = none → ∀ fuel,
      Config.run c (fuel + code.length) ⟨f, callers, s⟩ =
        Config.run c fuel
          ⟨{ f with
              pc := f.pc + code.length, last := f.pc + code.length - 1, stack := v :: f.stack },
            callers, { s with steps := s.steps + code.length }⟩

theorem pushes_iconst (v : Int32) : Pushes [.iconst v] (.int v) :=
  fun _ _ _ _ hat hlimit fuel =>
    run_next (attempt_of_perform hlimit hat.head rfl) fuel

/-- A negation behind code that pushes an int. -/
theorem pushes_ineg {code : Code} {v : Int32} (h : Pushes code (.int v)) :
    Pushes (code ++ [.ineg]) (.int (-v)) := by
  intro c f callers s hat hlimit fuel
  rw [List.length_append, List.length_singleton, ← Nat.add_assoc] at hlimit
  have hcode := h c f callers s hat.left (exceeded?_of_le (Nat.le_succ _) hlimit) (fuel + 1)
  rw [List.length_append, List.length_singleton, ← Nat.add_assoc, Nat.add_right_comm fuel, hcode]
  exact run_next (attempt_of_perform hlimit hat.right.head rfl) fuel

/-! ## A minus in front of a literal -/

/-- Digits that denote an int are read as it. -/
theorem Numeral.exists_int {text : String} {n : Nat} (h : Numeral text.toList n)
    (hn : n < 2 ^ 31) : ∃ k : Int32, k.toInt = n ∧ intOfText? text = some k := by
  have hfits : Fits n := by
    unfold Fits
    omega
  refine ⟨Int32.ofInt n, toInt_ofInt_of_fits hfits, intOfText?_eq_some_iff.mpr ?_⟩
  rw [toInt_ofInt_of_fits hfits]
  exact .unsigned h

theorem toInt_neg_of_nonneg {k : Int32} {n : Nat} (h : k.toInt = n) : (-k).toInt = -n := by
  have hlt := k.toInt_lt
  rw [Int32.toInt_neg, h, Int.bmod_eq_of_le (by omega) (by omega)]

/-- The minus is carried out behind the code of the parentheses. -/
theorem exprCode_minus_paren {env : Env} {text : String} {k : Int32}
    (h : intOfText? text = some k) (span s p : Span) (owner : String) (slots : Slots)
    (base : Nat) :
    exprCode owner slots base
        (typedExpr env (.unary s .minus (.paren p (.literal (.int text span))))) =
      .ok [.iconst k, .ineg] := by
  have htyped : typedExpr env (.unary s .minus (.paren p (.literal (.int text span)))) =
      .unary .int .minus (.literal (.int k)) := by
    simp only [typedExpr, typedLiteral, h]
    rfl
  rw [htyped]
  simp only [exprCode, unaryCode]
  rfl

theorem diagnoseExpr_minus_paren {env : Env} {text : String} {k : Int32}
    (h : intOfText? text = some k) (span s p : Span) :
    diagnoseExpr env (.unary s .minus (.paren p (.literal (.int text span)))) = [] := by
  simp only [diagnoseExpr, diagnoseLiteral, h, placed, typedExpr]
  rfl

/-- Int literals on their own and behind a minus, in expressions and as initial values. -/
theorem int_literals (env : Env) (text : String) (span : Span) :
    (∃ typed, typedExpr env (.literal (.int text span)) = .literal typed ∧
      TakenAs text span typed (diagnoseExpr env (.literal (.int text span)))) ∧
    TakenAs text span (typedLiteralExpr (.value (.int text span)))
      (diagnoseLiteralExpr (.value (.int text span))) ∧
    ∀ n, Numeral text.toList n → ∀ s p : Span,
      let folded := Surface.Expr.unary s .minus (.literal (.int text span))
      let unfolded := Surface.Expr.unary s .minus (.paren p (.literal (.int text span)))
      let initial := Surface.LiteralExpr.unary s .minus (.int text span)
      (∃ typed, typedExpr env folded = .literal typed ∧
        Negated text (s + span) n typed (diagnoseExpr env folded)) ∧
      Negated text (s + span) n (typedLiteralExpr initial) (diagnoseLiteralExpr initial) ∧
      (n < 2 ^ 31 → diagnoseExpr env unfolded = [] ∧
        ∃ k v : Int32, k.toInt = n ∧ v.toInt = -n ∧
          (∀ owner slots base,
            exprCode owner slots base (typedExpr env folded) = .ok [.iconst v] ∧
              exprCode owner slots base (typedExpr env unfolded) = .ok [.iconst k, .ineg]) ∧
          Pushes [.iconst v] (.int v) ∧ Pushes [.iconst k, .ineg] (.int v)) := by
  have hplain := takenAs_int text span
  refine ⟨⟨_, by rw [typedExpr], by rwa [diagnoseExpr]⟩, hplain, fun n hn s p => ?_⟩
  intro folded unfolded initial
  have hnegated := negated_of_takenAs hn (takenAs_int ("-" ++ text) (s + span))
  have htyped : typedExpr env folded = .literal (typedLiteral (.int ("-" ++ text) (s + span))) := by
    rw [typedExpr]
  refine ⟨⟨_, htyped, by rwa [diagnoseExpr]⟩, hnegated, fun hlt => ?_⟩
  obtain ⟨k, hk, hread⟩ := hn.exists_int hlt
  have hneg := toInt_neg_of_nonneg hk
  have hminus : intOfText? ("-" ++ text) = some (-k) :=
    intOfText?_eq_some_iff.mpr ((denotes_minus_iff hn).mpr hneg)
  have hfolded : typedExpr env folded = .literal (.int (-k)) := by
    rw [htyped, typedLiteral, hminus]
    rfl
  refine ⟨diagnoseExpr_minus_paren hread span s p, k, -k, hk, hneg, fun owner slots base => ?_,
    pushes_iconst _, pushes_ineg (pushes_iconst k)⟩
  refine ⟨?_, exprCode_minus_paren hread span s p owner slots base⟩
  rw [hfolded, exprCode, literalCode]

/-- The least int can be written, but only right behind its minus; what is one above it has the
same value with parentheses. -/
theorem int_literals_least :
    Numeral "2147483648".toList 2147483648 ∧ Numeral "2147483647".toList 2147483647 ∧
      TakenAs "2147483648" {} (.int 0) [.intOverflow "2147483648" {}] ∧
      IsInt (typedLiteralExpr (.unary {} .minus (.int "2147483648" {}))) (-2147483648) ∧
      ∃ k v : Int32, v.toInt = -2147483647 ∧
        exprCode "demo" (.start 1) 7
            (typedExpr {} (.unary {} .minus (.paren {} (.literal (.int "2147483647" {}))))) =
          .ok [.iconst k, .ineg] ∧
        Pushes [.iconst k, .ineg] (.int v) := by
  have hleast : Numeral "2147483648".toList 2147483648 :=
    numeral_iff.mpr ⟨by decide, by decide⟩
  have hnext : Numeral "2147483647".toList 2147483647 :=
    numeral_iff.mpr ⟨by decide, by decide⟩
  obtain ⟨-, htaken, hnegated⟩ := int_literals {} "2147483648" {}
  obtain ⟨-, -, hnegated'⟩ := int_literals {} "2147483647" {}
  obtain ⟨-, hinitial, -⟩ := hnegated _ hleast {} {}
  obtain ⟨-, -, hboth⟩ := hnegated' _ hnext {} {}
  obtain ⟨-, k, v, -, hv, hcode, -, hpushes⟩ := hboth (by decide)
  exact ⟨hleast, hnext, htaken, (hinitial.value.mpr (by decide)).1, k, v, hv,
    (hcode "demo" (.start 1) 7).2, hpushes⟩

end PZero.Analysis
