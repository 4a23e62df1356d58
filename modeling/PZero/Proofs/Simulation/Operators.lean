import PZero.Proofs.Simulation.Basic

/-! # Operators of the machine

The code of an operator leaves the value of the operator on the operand stack.
Truth values are the ints 0 and 1, and a comparison jumps to the code that pushes
its outcome.
-/
namespace PZero.Simulation
open Bytecode Machine Rules Lowering
open Typed (Literal)
open Reference (World)

/-! ## Ints -/

theorem wrapped_add (a b : Int32) : Reference.wrapped (a.toInt + b.toInt) = .int (a + b) := by
  rw [Reference.wrapped, Int32.ofInt_add, Int32.ofInt_toInt, Int32.ofInt_toInt]

theorem wrapped_sub (a b : Int32) : Reference.wrapped (a.toInt - b.toInt) = .int (a - b) := by
  rw [Reference.wrapped, Int32.ofInt_sub, Int32.ofInt_toInt, Int32.ofInt_toInt]

theorem wrapped_mul (a b : Int32) : Reference.wrapped (a.toInt * b.toInt) = .int (a * b) := by
  rw [Reference.wrapped, Int32.ofInt_mul, Int32.ofInt_toInt, Int32.ofInt_toInt]

theorem wrapped_div (a b : Int32) : Reference.wrapped (a.toInt.tdiv b.toInt) = .int (a / b) := by
  rw [Reference.wrapped, Literal.int.injEq, ← Int32.toInt_inj, Int32.toInt_div, Int32.toInt_ofInt]

theorem wrapped_neg (a : Int32) : Reference.wrapped (-a.toInt) = .int (-a) := by
  rw [Reference.wrapped, Int32.ofInt_neg, Int32.ofInt_toInt]

theorem compare_toInt (a b : Int32) : compare a b = compare a.toInt b.toInt := by
  simp only [compare, compareOfLessAndEq, Int32.lt_iff_toInt_lt, Int32.toInt_inj]

/-! ## Comparisons -/

/-- The condition of a comparison holds when the comparison does. -/
theorem holds_conditionOf {op : BinOp} {o : Ordering} {b : Bool}
    (h : Reference.holds op o = some b) : (conditionOf op).holds o = b := by
  cases op <;> cases h <;> rfl

theorem compare_comparison (a b : Single) :
    compare (comparison a b) 0 = (a.compare? b).getD .gt := by
  unfold comparison
  rcases a.compare? b with _ | o
  · decide
  · cases o <;> decide

theorem exists_holds {op : BinOp} (h : op.isRelational = true ∨ op.isEquality = true)
    (o : Ordering) : ∃ b, Reference.holds op o = some b := by
  cases op with
  | equal | notEqual | greaterEqual | greaterThan | lessEqual | lessThan => exact ⟨_, rfl⟩
  | divide | minus | plus | times | and | or =>
    simp [BinOp.isRelational, BinOp.isEquality] at h

/-! ## Code -/

/-- What a piece of code does that leaves a value of type `t` on the stack. -/
def Yields (G : Globals) (r : Routine) (pc : Nat) (locals : Array Value) (stack : List Value)
    (callers : List Frame) (t : FieldType) (v : Literal) (w : World) (cfg : Config) : Prop :=
  valueType v = t ∧ At G r pc locals (encode v :: stack) callers w cfg

section
variable {c : Setting} {n : Nat} {G : Globals} {r : Routine} {base : Nat} {locals : Array Value}
  {stack : List Value} {callers : List Frame} {w : World}

theorem perform_ifZero (pc last : Nat) (v : Int32) (condition : Condition) (tgt : UInt32)
    (s : Store) :
    perform c ⟨r, pc, last, locals, .int v :: stack⟩ s (.ifZero condition tgt) =
      .ok (.next ⟨r, if condition.holds (compare v 0) then tgt.toNat else pc, last, locals, stack⟩
        s) := by
  simp only [perform, Frame.popInt, Frame.pop, bind, Except.bind, pure, Except.pure, Frame.jump]
  split <;> rfl

theorem perform_ifCompare (pc last : Nat) (a b : Int32) (condition : Condition) (tgt : UInt32)
    (s : Store) :
    perform c ⟨r, pc, last, locals, .int b :: .int a :: stack⟩ s (.ifCompare condition tgt) =
      .ok (.next ⟨r, if condition.holds (compare a b) then tgt.toNat else pc, last, locals, stack⟩
        s) := by
  simp only [perform, Frame.popInt, Frame.pop, bind, Except.bind, pure, Except.pure, Frame.jump]
  split <;> rfl

/-- The outcome of a conditional jump becomes a truth value. -/
theorem verdict_simulates (hc : Generous c) (hsize : r.code.size < 2 ^ 32)
    {jump : UInt32 → Instruction} {operands : List Value} {b : Bool}
    (hcode : CodeAt r base (verdict base jump))
    (hjump : ∀ tgt s, perform c ⟨r, base + 1, base, locals, operands⟩ s (jump tgt) =
      .ok (.next ⟨r, if b then tgt.toNat else base + 1, base, locals, stack⟩ s)) :
    Simulates c n (At G r base locals operands callers w) (.done (.bool b) w)
      (Yields G r (base + 4) locals stack callers .bool) := by
  obtain ⟨hfirst, hzero, hgoto, hone, hle⟩ := hcode.verdict
  have hyes : (target (base + 3)).toNat = base + 3 := target_toNat (by omega)
  have hend : (target (base + 4)).toNat = base + 4 := target_toNat (by omega)
  cases b with
  | true =>
    refine .pure hc hfirst (fun s => hjump _ s) ?_
    rw [if_pos rfl, hyes]
    exact .pure hc hone (fun s => rfl) (.done fun cfg h => ⟨rfl, h⟩)
  | false =>
    refine .pure hc hfirst (fun s => hjump _ s) ?_
    refine .pure hc hzero (fun s => rfl) ?_
    refine .pure hc hgoto (fun s => rfl) ?_
    rw [hend]
    exact .done fun cfg h => ⟨rfl, h⟩

theorem intComparison_simulates (hc : Generous c) (hsize : r.code.size < 2 ^ 32) {op : BinOp}
    (ho : op.isRelational = true ∨ op.isEquality = true) (a b : Int32)
    (hcode : CodeAt r base (verdict base (.ifCompare (conditionOf op)))) :
    Simulates c n (At G r base locals (.int b :: .int a :: stack) callers w)
      (Reference.compared op (compare a.toInt b.toInt) w)
      (Yields G r (base + 4) locals stack callers .bool) := by
  obtain ⟨v, hv⟩ := exists_holds ho (compare a.toInt b.toInt)
  rw [Reference.compared, hv]
  refine verdict_simulates hc hsize hcode fun tgt s => ?_
  rw [perform_ifCompare, compare_toInt, holds_conditionOf hv]

theorem floatComparison_simulates (hc : Generous c) (hsize : r.code.size < 2 ^ 32) {op : BinOp}
    (ho : op.isRelational = true ∨ op.isEquality = true) (a b : Single)
    (hcode : CodeAt r base (.fcmpg :: verdict (base + 1) (.ifZero (conditionOf op)))) :
    Simulates c n (At G r base locals (.float b :: .float a :: stack) callers w)
      (Reference.compared op ((a.compare? b).getD .gt) w)
      (Yields G r (base + 5) locals stack callers .bool) := by
  obtain ⟨v, hv⟩ := exists_holds ho ((a.compare? b).getD .gt)
  rw [Reference.compared, hv]
  refine .pure hc hcode.head (fun s => rfl) ?_
  refine verdict_simulates hc hsize hcode.tail fun tgt s => ?_
  rw [perform_ifZero, compare_comparison, holds_conditionOf hv]

/-- One instruction that takes operands off the stack and leaves a value there. -/
theorem single_simulates (hc : Generous c) {i : Instruction} {operands : List Value} {v : Literal}
    (hcode : CodeAt r base [i])
    (hp : ∀ s, perform c ⟨r, base + 1, base, locals, operands⟩ s i =
      .ok (.next ⟨r, base + 1, base, locals, encode v :: stack⟩ s)) :
    Simulates c n (At G r base locals operands callers w) (.done v w)
      (Yields G r (base + 1) locals stack callers (valueType v)) :=
  .pure hc hcode.head hp (.done fun _ h => ⟨rfl, h⟩)

theorem divide_simulates (hc : Generous c) (a b : Int32) (hcode : CodeAt r base [.idiv]) :
    Simulates c n (At G r base locals (.int b :: .int a :: stack) callers w)
      (Reference.intBinary .divide a.toInt b.toInt w)
      (Yields G r (base + 1) locals stack callers .int) := by
  by_cases hb : b = 0
  · subst hb
    rintro cfg ⟨last, s, rfl, hs⟩
    refine ⟨1, r.name, base, { s with steps := s.steps + 1 }, fun fuel => ?_, hs.output⟩
    simp only [Config.run, Config.step, Options.exceeded?, hc.stepLimit, Option.bind_none,
      Frame.fetch, hcode.head]
    rfl
  · have hb' : b.toInt ≠ 0 := fun h => hb (Int32.toInt_inj.mp h)
    have heval : Reference.intBinary .divide a.toInt b.toInt w = .done (.int (a / b)) w := by
      rw [Reference.intBinary, if_neg hb', wrapped_div]
      rfl
    rw [heval]
    refine single_simulates hc hcode fun s => ?_
    simp only [perform, Frame.intBinary, Frame.popInt, Frame.pop, Machine.divide, if_neg hb, bind,
      Except.bind, pure, Except.pure]
    rfl

theorem int_simulates (hc : Generous c) (hsize : r.code.size < 2 ^ 32) {op : BinOp} {code : Code}
    {t : FieldType} (ho : BinaryType op .int t) (h : binaryCode base op .int = .ok code)
    (hcode : CodeAt r base code) (a b : Int32) :
    Simulates c n (At G r base locals (.int b :: .int a :: stack) callers w)
      (Reference.intBinary op a.toInt b.toInt w)
      (Yields G r (base + code.length) locals stack callers t) := by
  cases ho with
  | arithmetic ho _ =>
    cases op <;> cases ho <;> cases h
    · exact divide_simulates hc a b hcode
    · simp only [Reference.intBinary, wrapped_sub]
      exact single_simulates hc hcode fun s => rfl
    · simp only [Reference.intBinary, wrapped_add]
      exact single_simulates hc hcode fun s => rfl
    · simp only [Reference.intBinary, wrapped_mul]
      exact single_simulates hc hcode fun s => rfl
  | relational ho _ =>
    cases op <;> cases ho <;> cases h <;> exact intComparison_simulates hc hsize (.inl rfl) a b hcode
  | equality ho =>
    cases op <;> cases ho <;> cases h <;> exact intComparison_simulates hc hsize (.inr rfl) a b hcode

theorem float_simulates (hc : Generous c) (hsize : r.code.size < 2 ^ 32) {op : BinOp} {code : Code}
    {t : FieldType} (ho : BinaryType op .float t) (h : binaryCode base op .float = .ok code)
    (hcode : CodeAt r base code) (a b : Single) :
    Simulates c n (At G r base locals (.float b :: .float a :: stack) callers w)
      (Reference.floatBinary op a b w)
      (Yields G r (base + code.length) locals stack callers t) := by
  cases ho with
  | arithmetic ho _ =>
    cases op <;> cases ho <;> cases h <;> exact single_simulates hc hcode fun s => rfl
  | relational ho _ =>
    cases op <;> cases ho <;> cases h <;>
      exact floatComparison_simulates hc hsize (.inl rfl) a b hcode
  | equality ho =>
    cases op <;> cases ho <;> cases h <;>
      exact floatComparison_simulates hc hsize (.inr rfl) a b hcode

theorem bool_simulates (hc : Generous c) {op : BinOp} {code : Code} {t : FieldType}
    (ho : BinaryType op .bool t) (h : binaryCode base op .bool = .ok code)
    (hcode : CodeAt r base code) (a b : Bool) :
    Simulates c n (At G r base locals (encode (.bool b) :: encode (.bool a) :: stack) callers w)
      (Reference.boolBinary op a b w)
      (Yields G r (base + code.length) locals stack callers t) := by
  cases ho with
  | logical ho =>
    cases op <;> cases ho <;> cases h <;> cases a <;> cases b <;>
      exact single_simulates hc hcode fun s => rfl
  | arithmetic _ ht => rcases ht with ht | ht <;> cases ht
  | relational _ ht => rcases ht with ht | ht <;> cases ht
  | equality ho =>
    cases op <;> cases ho <;> cases h
    · refine .pure hc hcode.head (fun s => rfl) (.pure hc hcode.tail.head (fun s => rfl) ?_)
      cases a <;> cases b <;> exact single_simulates hc hcode.tail.tail fun s => rfl
    · cases a <;> cases b <;> exact single_simulates hc hcode fun s => rfl

/-- The code of an operator with two operands. -/
theorem binary_simulates (hc : Generous c) (hsize : r.code.size < 2 ^ 32) {op : BinOp} {code : Code}
    {t result : FieldType} (ho : BinaryType op t result)
    (h : binaryCode base op (typeOf t) = .ok code) (hcode : CodeAt r base code) {a b : Literal}
    (ha : valueType a = t) (hb : valueType b = t) :
    Simulates c n (At G r base locals (encode b :: encode a :: stack) callers w)
      (Reference.binary op a b w)
      (Yields G r (base + code.length) locals stack callers result) := by
  subst ha
  cases a <;> cases b <;> cases hb
  · exact bool_simulates hc ho h hcode _ _
  · exact int_simulates hc hsize ho h hcode _ _
  · exact float_simulates hc hsize ho h hcode _ _
  · cases ho with
    | arithmetic _ ht => rcases ht with ht | ht <;> cases ht
    | relational _ ht => rcases ht with ht | ht <;> cases ht
    | equality ho => cases op <;> cases ho <;> cases h

theorem not_simulates (hc : Generous c) (hsize : r.code.size < 2 ^ 32) (b : Bool)
    (hcode : CodeAt r base (verdict base (.ifZero .eq))) :
    Simulates c n (At G r base locals (encode (.bool b) :: stack) callers w) (.done (.bool !b) w)
      (Yields G r (base + 4) locals stack callers .bool) := by
  refine verdict_simulates hc hsize hcode fun tgt s => ?_
  cases b <;> exact perform_ifZero _ _ _ _ _ _

/-- The code of an operator with one operand. -/
theorem unary_simulates (hc : Generous c) (hsize : r.code.size < 2 ^ 32) {op : UnOp} {code : Code}
    {t : FieldType} (ho : UnaryType op t) (h : unaryCode base op (typeOf t) = .ok code)
    (hcode : CodeAt r base code) {v : Literal} (hv : valueType v = t) :
    Simulates c n (At G r base locals (encode v :: stack) callers w) (Reference.unary op v w)
      (Yields G r (base + code.length) locals stack callers t) := by
  subst hv
  cases v with
  | bool b =>
    cases ho with
    | not =>
      cases h
      exact not_simulates hc hsize b hcode
    | minus ht => rcases ht with ht | ht <;> cases ht
    | plus ht => rcases ht with ht | ht <;> cases ht
  | int a =>
    cases op <;> cases ho <;> cases h
    · simp only [Reference.unary, wrapped_neg]
      exact single_simulates hc hcode fun s => rfl
    · exact .done fun _ h => ⟨rfl, h⟩
  | float x =>
    cases op <;> cases ho <;> cases h
    · exact single_simulates hc hcode fun s => rfl
    · exact .done fun _ h => ⟨rfl, h⟩
  | string s =>
    cases ho with
    | minus ht => rcases ht with ht | ht <;> cases ht
    | plus ht => rcases ht with ht | ht <;> cases ht

end
end PZero.Simulation
