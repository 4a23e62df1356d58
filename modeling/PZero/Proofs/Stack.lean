import PZero.Proofs.Safety.Program

/-! # Stack discipline of compiled routines

Each index of a compiled routine has one operand stack, whatever way leads there:
its instruction finds its operands on top, and what it leaves is what each of its
successors finds. Followed along the code of a tree, such a map says that an
expression leaves one value and a statement leaves none, so that a loop begins each
time with the same stack.
-/
namespace PZero.Stack
open Bytecode Machine Lowering Safety

/-! ## Maps of stacks -/

/-- What an instruction does to the kinds on the stack, the top of which comes first. -/
def Effect (before after : List Kind) : Instruction → Prop
  | .pop => ∃ k, before = k :: after
  | i => ∃ rest, before = i.operands ++ rest ∧ after = i.results ++ rest

/-- The operand stack at each index of a routine. -/
structure StackMap (r : Routine) (stack : Nat → List Kind) : Prop where
  entry : stack 0 = []
  effect : ∀ {pc i}, r.code[pc]? = some i → ∃ after, Effect (stack pc) after i ∧
    ∀ next ∈ i.successors pc, next < r.code.size ∧ stack next = after
  ret : ∀ {pc}, r.code[pc]? = some .ret → stack pc = []
  iret : ∀ {pc}, r.code[pc]? = some .iret → stack pc = [.int]
  fret : ∀ {pc}, r.code[pc]? = some .fret → stack pc = [.float]
  /-- Nothing but ints, floats, strings and the stream is ever on the stack. -/
  values : ∀ pc, .unit ∉ stack pc

/-- The kinds of values that can be computed with. -/
def isValue (k : Kind) : Bool := k != .unit

theorem ofFieldType_isValue (t : FieldType) : isValue (Kind.ofFieldType t) = true := by
  cases t <;> rfl

theorem filter_operands (i : Instruction) : i.operands.filter isValue = i.operands := by
  cases i with
  | putStatic f => simp [Instruction.operands, ofFieldType_isValue]
  | print t =>
    rw [List.filter_eq_self]
    simp only [Instruction.operands, List.forall_mem_cons, ofFieldType_isValue, true_and]
    decide
  | invoke f =>
    rw [List.filter_eq_self]
    simp [Instruction.operands, ofFieldType_isValue]
  | _ => rfl

theorem filter_results (i : Instruction) : i.results.filter isValue = i.results := by
  cases i with
  | getStatic f => simp [Instruction.results, ofFieldType_isValue]
  | invoke f =>
    rw [List.filter_eq_self]
    simp [Instruction.results, Descriptor.resultKinds, ofFieldType_isValue]
  | _ => rfl

/-- The stacks of an annotated routine are a map of stacks. What is no value can be left out of them:
no instruction takes or leaves it. -/
theorem stackMap_of_annotated {m : Module} {r : Routine} {shape : Nat → Shape}
    (h : Annotated m r shape) : StackMap r fun pc => (shape pc).stack.filter isValue := by
  have hfits : ∀ {pc i}, r.code[pc]? = some i → ∃ s, Fits m r i (shape pc) s ∧
      ∀ next ∈ i.successors pc, next < r.code.size ∧ s.Narrows (shape next) := by
    intro pc i hi
    obtain ⟨hpc, -⟩ := Array.getElem?_eq_some_iff.mp hi
    obtain ⟨i', s, hi', hfits, hsucc⟩ := h.code pc hpc
    obtain rfl := Option.some.inj (hi'.symm.trans hi)
    exact ⟨s, hfits, hsucc⟩
  constructor
  · rw [h.entry.1]
    rfl
  · intro pc i hi
    obtain ⟨s, ⟨hallowed, ⟨rest, hbefore, hafter⟩, -⟩, hsucc⟩ := hfits hi
    refine ⟨s.stack.filter isValue, ?_, ?_⟩
    · have heffect : ∃ rest', (shape pc).stack.filter isValue = i.operands ++ rest' ∧
          s.stack.filter isValue = i.results ++ rest' := by
        refine ⟨rest.filter isValue, ?_, ?_⟩
        · rw [hbefore, List.filter_append, filter_operands]
        · rw [hafter, List.filter_append, filter_results]
      cases i with
      | pop => exact hallowed.elim
      | _ => exact heffect
    · intro next hnext
      obtain ⟨hsize, hstack, -⟩ := hsucc next hnext
      exact ⟨hsize, congrArg (List.filter isValue) hstack⟩
  · intro pc hi
    obtain ⟨s, hfits, -⟩ := hfits hi
    rw [hfits.allowed.1]
    rfl
  · intro pc hi
    obtain ⟨s, hfits, -⟩ := hfits hi
    rw [hfits.allowed.1]
    rfl
  · intro pc hi
    obtain ⟨s, hfits, -⟩ := hfits hi
    rw [hfits.allowed.1]
    rfl
  · intro pc
    simp [isValue]

/-! ## Following the code of a tree

The map is given, so it is enough to follow one way through the code: the stack at
the end is the same on all of them. -/

section
variable {r : Routine} {stack : Nat → List Kind}

/-- An instruction replaces as many values as it has operands. -/
theorem StackMap.next (hm : StackMap r stack) {pc next : Nat} {i : Instruction}
    (hi : r.code[pc]? = some i) (hne : i ≠ .pop) (hnext : next ∈ i.successors pc)
    {taken rest : List Kind} (hstack : stack pc = taken ++ rest)
    (hlength : taken.length = i.operands.length) : stack next = i.results ++ rest := by
  obtain ⟨after, heffect, hsucc⟩ := hm.effect hi
  have hfits : ∃ rest', stack pc = i.operands ++ rest' ∧ after = i.results ++ rest' := by
    cases i with
    | pop => exact (hne rfl).elim
    | _ => exact heffect
  obtain ⟨rest', hbefore, hafter⟩ := hfits
  obtain ⟨-, rfl⟩ := List.append_inj (hstack.symm.trans hbefore) hlength
  rw [(hsucc next hnext).2, hafter]

/-- Between two indices a number of values is taken off the stack and another number put on it. -/
def Replaces (stack : Nat → List Kind) (lo hi taken put : Nat) : Prop :=
  ∀ front rest, front.length = taken → stack lo = front ++ rest →
    ∃ top, top.length = put ∧ stack hi = top ++ rest

/-- An instruction that leads to the next one, with the numbers of its operands and results. -/
structure Plain (i : Instruction) (taken put : Nat) : Prop where
  ne_pop : i ≠ .pop
  successors : ∀ pc, i.successors pc = [pc + 1]
  operands : i.operands.length = taken
  results : i.results.length = put

namespace Replaces
variable {lo mid hi taken put between : Nat}

theorem nil (lo taken : Nat) : Replaces stack lo lo taken taken :=
  fun front _ hlength hstack => ⟨front, hlength, hstack⟩

theorem append (h : Replaces stack lo mid taken between) (h' : Replaces stack mid hi between put) :
    Replaces stack lo hi taken put := by
  intro front rest hlength hstack
  obtain ⟨top, htop, hmid⟩ := h front rest hlength hstack
  exact h' top rest htop hmid

/-- Values further down are left alone. -/
theorem below (h : Replaces stack lo hi taken put) (n : Nat) :
    Replaces stack lo hi (taken + n) (put + n) := by
  intro front rest hlength hstack
  have hfront : front = front.take taken ++ front.drop taken := (List.take_append_drop _ _).symm
  rw [hfront, List.append_assoc] at hstack
  obtain ⟨top, htop, hhi⟩ := h (front.take taken) _ (by rw [List.length_take]; omega) hstack
  refine ⟨top ++ front.drop taken, ?_, by rw [hhi, List.append_assoc]⟩
  rw [List.length_append, List.length_drop]
  omega

theorem step (hm : StackMap r stack) {pc next : Nat} {i : Instruction}
    (hi : r.code[pc]? = some i) (hne : i ≠ .pop) (hnext : next ∈ i.successors pc) :
    Replaces stack pc next i.operands.length i.results.length :=
  fun _ _ hlength hstack => ⟨i.results, rfl, hm.next hi hne hnext hstack hlength⟩

theorem plain (hm : StackMap r stack) {base : Nat} {i : Instruction} {code : Code}
    (hat : CodeAt r base (i :: code)) (h : Plain i taken put) :
    Replaces stack base (base + 1) taken put := by
  have hstep := step hm hat.head h.ne_pop (by rw [h.successors]; exact .head _)
  rwa [h.operands, h.results] at hstep

theorem jump (hm : StackMap r stack) {pc : Nat} {tgt : UInt32}
    (hgoto : r.code[pc]? = some (.goto tgt)) (htgt : tgt.toNat = hi) :
    Replaces stack pc hi taken taken := by
  have hstep : Replaces stack pc hi 0 0 :=
    step hm hgoto (by simp) (List.mem_singleton.mpr htgt.symm)
  simpa using hstep.below taken

end Replaces

/-! ## Operators -/

theorem verdict_replaces (hm : StackMap r stack) (hsize : r.code.size < 2 ^ 32) {base n : Nat}
    {jump : UInt32 → Instruction} (hat : CodeAt r base (verdict base jump))
    (hjump : ∀ t, jump t ≠ .pop ∧ (jump t).operands.length = n ∧ (jump t).results = [] ∧
      (jump t).successors base = [base + 1, t.toNat]) :
    Replaces stack base (base + 4) n 1 := by
  obtain ⟨hfirst, -, hgoto, -, hle⟩ := hat.verdict
  obtain ⟨hne, hoperands, hresults, hsucc⟩ := hjump (target (base + 3))
  have hbranch := Replaces.step hm hfirst hne (by rw [hsucc]; exact .head _)
  rw [hoperands, hresults] at hbranch
  have hpush : Plain (.iconst 0) 0 1 := ⟨by simp, fun _ => rfl, rfl, rfl⟩
  exact hbranch.append ((Replaces.plain hm hat.tail hpush).append
    (.jump hm hgoto (target_toNat (by omega))))

theorem comparison_replaces (hm : StackMap r stack) (hsize : r.code.size < 2 ^ 32) {base : Nat}
    {op : BinOp} {t : Ty} {code : Code} (h : comparisonCode base op t = .ok code)
    (hat : CodeAt r base code) : Replaces stack base (base + code.length) 2 1 := by
  have hxor : Plain .ixor 2 1 := ⟨by simp, fun _ => rfl, rfl, rfl⟩
  unfold comparisonCode at h
  split at h
  · cases h
    exact verdict_replaces hm hsize hat fun _ => ⟨by simp, rfl, rfl, rfl⟩
  · cases h
    have hcompare : Plain .fcmpg 2 1 := ⟨by simp, fun _ => rfl, rfl, rfl⟩
    exact (Replaces.plain hm hat hcompare).append
      (verdict_replaces hm hsize hat.tail fun _ => ⟨by simp, rfl, rfl, rfl⟩)
  · cases h
    exact .plain hm hat hxor
  · cases h
    have hone : Plain (.iconst 1) 0 1 := ⟨by simp, fun _ => rfl, rfl, rfl⟩
    exact (Replaces.plain hm hat hxor).append (((Replaces.plain hm hat.tail hone).below 1).append
      (.plain hm hat.tail.tail hxor))
  · cases h

theorem arithmetic_plain {op : BinOp} {t : Ty} {i : Instruction} (h : arithmetic op t = .ok i) :
    Plain i 2 1 := by
  unfold arithmetic at h
  split at h <;> cases h <;> exact ⟨by simp, fun _ => rfl, rfl, rfl⟩

theorem binary_replaces (hm : StackMap r stack) (hsize : r.code.size < 2 ^ 32) {base : Nat}
    {op : BinOp} {t : Ty} {code : Code} (h : binaryCode base op t = .ok code)
    (hat : CodeAt r base code) : Replaces stack base (base + code.length) 2 1 := by
  cases op with
  | and | or =>
    cases h
    exact .plain hm hat ⟨by simp, fun _ => rfl, rfl, rfl⟩
  | plus | minus | times | divide =>
    simp only [binaryCode, bind_eq_ok, pure_eq_ok] at h
    obtain ⟨i, hi, rfl⟩ := h
    exact .plain hm hat (arithmetic_plain hi)
  | equal | notEqual | lessThan | lessEqual | greaterThan | greaterEqual =>
    exact comparison_replaces hm hsize h hat

theorem unary_replaces (hm : StackMap r stack) (hsize : r.code.size < 2 ^ 32) {base : Nat}
    {op : UnOp} {t : Ty} {code : Code} (h : unaryCode base op t = .ok code)
    (hat : CodeAt r base code) : Replaces stack base (base + code.length) 1 1 := by
  unfold unaryCode at h
  split at h
  · cases h
    exact verdict_replaces hm hsize hat fun _ => ⟨by simp, rfl, rfl, rfl⟩
  · cases h
    exact .plain hm hat ⟨by simp, fun _ => rfl, rfl, rfl⟩
  · cases h
    exact .plain hm hat ⟨by simp, fun _ => rfl, rfl, rfl⟩
  · cases h
  · cases h
    exact .nil base 1

/-! ## Branches -/

/-- One way through a conditional is that of a true guard. -/
theorem conditional_replaces (hm : StackMap r stack) (hsize : r.code.size < 2 ^ 32) {base put : Nat}
    {guard yes no : Code} (hat : CodeAt r base (conditional base guard yes no))
    (hguard : Replaces stack base (base + guard.length) 0 1)
    (hyes : Replaces stack (yesStart base guard) (yesStart base guard + yes.length) 0 put) :
    Replaces stack base (base + (conditional base guard yes no).length) 0 put := by
  obtain ⟨-, hbranch, -, hgoto, -, hend⟩ := hat.conditional
  have hle := hat.le_size
  rw [hend] at hle ⊢
  have henter : Replaces stack (base + guard.length) (yesStart base guard) 1 0 :=
    .step hm hbranch (by simp) (.head _)
  exact hguard.append (henter.append (hyes.append (.jump hm hgoto (target_toNat (by omega)))))

/-- One way through a loop is that of a guard which is false at once. -/
theorem loop_replaces (hm : StackMap r stack) (hsize : r.code.size < 2 ^ 32) {base : Nat}
    {guard body : Code} (hat : CodeAt r base (loop base guard body))
    (hguard : Replaces stack base (base + guard.length) 0 1) :
    Replaces stack base (base + (loop base guard body).length) 0 0 := by
  obtain ⟨-, hbranch, -, -, hend⟩ := hat.loop
  have hle := hat.le_size
  rw [hend] at hle ⊢
  have hplace : (target (yesStart base guard + body.length + 1)).toNat =
      yesStart base guard + body.length + 1 := target_toNat (by omega)
  refine hguard.append (.step hm hbranch (by simp) ?_)
  rw [Instruction.successors_ifZero, hplace]
  exact .tail _ (.head _)

/-! ## Expressions -/

theorem nameCode_plain {owner : String} {slots : Slots} {t : Ty} {name : String} {i : Instruction}
    (h : nameCode owner slots t name = .ok i) : Plain i 0 1 := by
  unfold nameCode at h
  split at h
  · cases h
    exact ⟨by simp, fun _ => rfl, rfl, rfl⟩
  · cases h
    exact ⟨by simp, fun _ => rfl, rfl, rfl⟩
  · cases h
    exact ⟨by simp, fun _ => rfl, rfl, rfl⟩
  · cases h
  · simp only [bind_eq_ok, pure_eq_ok] at h
    obtain ⟨ref, -, rfl⟩ := h
    exact ⟨by simp, fun _ => rfl, rfl, rfl⟩

theorem literalCode_plain (v : Typed.Literal) : Plain (literalCode v) 0 1 := by
  cases v <;> exact ⟨by simp [literalCode], fun _ => rfl, rfl, rfl⟩

theorem descriptor_lengths {ts : List Ty} {t : Option Ty} {d : Descriptor}
    (h : descriptor ts t = .ok d) :
    d.parameters.length = ts.length ∧ d.resultKinds.length = t.toList.length := by
  rw [descriptor, bind_eq_ok] at h
  obtain ⟨parameters, hparameters, h⟩ := h
  have hlength : parameters.length = ts.length := (forall₂_of_mapM hparameters).length_eq.symm
  cases t with
  | none =>
    cases h
    exact ⟨hlength, rfl⟩
  | some t =>
    cases t with
    | error => cases h
    | int | float | bool | string =>
      cases h
      exact ⟨hlength, rfl⟩

/-- A call takes its arguments and leaves its result, if it has one. -/
theorem invoke_plain {owner name : String} {ts : List Ty} {t : Option Ty} {f : RoutineRef}
    (h : routineRef owner name ts t = .ok f) : Plain (.invoke f) ts.length t.toList.length := by
  simp only [routineRef, bind_eq_ok, pure_eq_ok] at h
  obtain ⟨d, hd, rfl⟩ := h
  obtain ⟨hparameters, hresult⟩ := descriptor_lengths hd
  refine ⟨by simp, fun _ => rfl, ?_, hresult⟩
  simp [Instruction.operands, hparameters]

mutual

/-- The code of an expression leaves one value. -/
theorem expr_replaces (hm : StackMap r stack) (hsize : r.code.size < 2 ^ 32) {owner : String}
    {slots : Slots} {base : Nat} {code : Code} (e : Typed.Expr)
    (h : exprCode owner slots base e = .ok code) (hat : CodeAt r base code) :
    Replaces stack base (base + code.length) 0 1 := by
  cases e with
  | ternary guard yes no =>
    obtain ⟨g, y, n, hg, hy, -, rfl⟩ := exprCode_ternary h
    obtain ⟨hgat, -, hyat, -⟩ := hat.conditional
    exact conditional_replaces hm hsize hat (expr_replaces hm hsize guard hg hgat)
      (expr_replaces hm hsize yes hy hyat)
  | binary op left right =>
    obtain ⟨a, b, combine, ha, hb, hcombine, rfl⟩ := exprCode_binary h
    have hat' := hat.right
    simp only [List.length_append, ← Nat.add_assoc] at hat' ⊢
    have hleft := expr_replaces hm hsize left ha hat.left.left
    have hright := (expr_replaces hm hsize right hb hat.left.right).below 1
    exact hleft.append (hright.append (binary_replaces hm hsize hcombine hat'))
  | unary t op operand =>
    obtain ⟨c, apply, hc, happly, rfl⟩ := exprCode_unary h
    rw [List.length_append, ← Nat.add_assoc]
    exact (expr_replaces hm hsize operand hc hat.left).append
      (unary_replaces hm hsize happly hat.right)
  | call t name arguments =>
    simp only [exprCode, bind_eq_ok, pure_eq_ok] at h
    obtain ⟨c, hc, f, hf, rfl⟩ := h
    rw [List.length_append, ← Nat.add_assoc]
    have hinvoke := invoke_plain hf
    rw [List.length_map] at hinvoke
    exact (exprs_replaces hm hsize arguments hc hat.left).append (.plain hm hat.right hinvoke)
  | name t name =>
    obtain ⟨i, hi, rfl⟩ := exprCode_name h
    exact .plain hm hat (nameCode_plain hi)
  | literal v =>
    cases h
    exact .plain hm hat (literalCode_plain v)

theorem exprs_replaces (hm : StackMap r stack) (hsize : r.code.size < 2 ^ 32) {owner : String}
    {slots : Slots} {base : Nat} {code : Code} (es : List Typed.Expr)
    (h : exprsCode owner slots base es = .ok code) (hat : CodeAt r base code) :
    Replaces stack base (base + code.length) 0 es.length := by
  cases es with
  | nil =>
    cases h
    exact .nil base 0
  | cons e es =>
    obtain ⟨c, others, hc, hothers, rfl⟩ := exprsCode_cons h
    rw [List.length_append, ← Nat.add_assoc]
    have hrest := (exprs_replaces hm hsize es hothers hat.right).below 1
    rw [Nat.zero_add] at hrest
    exact (expr_replaces hm hsize e hc hat.left).append hrest

end

/-! ## Statements -/

theorem storeCode_plain {t : Ty} {slot : UInt16} {i : Instruction}
    (h : storeCode t slot = .ok i) : Plain i 1 0 := by
  cases t <;> cases h <;> exact ⟨by simp, fun _ => rfl, rfl, rfl⟩

theorem assignCode_plain {owner : String} {slots : Slots} {t : Ty} {name : String}
    {i : Instruction} (h : assignCode owner slots t name = .ok i) : Plain i 1 0 := by
  unfold assignCode at h
  split at h
  · exact storeCode_plain h
  · simp only [bind_eq_ok, pure_eq_ok] at h
    obtain ⟨ref, -, rfl⟩ := h
    exact ⟨by simp, fun _ => rfl, rfl, rfl⟩

theorem printCode_plain {t : Ty} {i : Instruction} (h : printCode t = .ok i) : Plain i 2 0 := by
  unfold printCode at h
  split at h
  · cases h
    exact ⟨by simp, fun _ => rfl, rfl, rfl⟩
  · simp only [bind_eq_ok, pure_eq_ok] at h
    obtain ⟨type, -, rfl⟩ := h
    exact ⟨by simp, fun _ => rfl, rfl, rfl⟩

theorem getStdout_plain : Plain .getStdout 0 1 := ⟨by simp, fun _ => rfl, rfl, rfl⟩

theorem prints_replaces (hm : StackMap r stack) (hsize : r.code.size < 2 ^ 32) {owner : String}
    {slots : Slots} {base : Nat} {code : Code} {es : List Typed.Expr}
    (h : printsCode owner slots base es = .ok code) (hat : CodeAt r base code) :
    Replaces stack base (base + code.length) 0 0 := by
  induction es generalizing base code with
  | nil =>
    cases h
    exact .nil base 0
  | cons e es ih =>
    obtain ⟨c, print, others, hc, hprint, hothers, rfl⟩ := printsCode_cons h
    obtain ⟨-, hargument, hi, hrest, hend⟩ := hat.printed
    have hplain := printCode_plain hprint
    have hprinted : Replaces stack (base + 1 + c.length) (base + 1 + c.length + 1) 2 0 := by
      have hstep := Replaces.step hm hi hplain.ne_pop (by rw [hplain.successors]; exact .head _)
      rwa [hplain.operands, hplain.results] at hstep
    rw [hend]
    exact (Replaces.plain hm hat getStdout_plain).append
      (((expr_replaces hm hsize e hc hargument).below 1).append
        (hprinted.append (ih hothers hrest)))

theorem call_replaces (hm : StackMap r stack) (hsize : r.code.size < 2 ^ 32) {owner : String}
    {slots : Slots} {base : Nat} {code : Code} {callee : Typed.Callee}
    {arguments : List Typed.Expr} (h : callCode owner slots base callee arguments = .ok code)
    (hat : CodeAt r base code) : Replaces stack base (base + code.length) 0 0 := by
  cases callee with
  | print => exact prints_replaces hm hsize h hat
  | println =>
    obtain ⟨c, hc, rfl⟩ := callCode_println h
    rw [List.length_append, ← Nat.add_assoc]
    have hnewline : Plain .printNewline 1 0 := ⟨by simp, fun _ => rfl, rfl, rfl⟩
    exact (prints_replaces hm hsize hc hat.left).append
      ((Replaces.plain hm hat.right getStdout_plain).append (.plain hm hat.right.tail hnewline))
  | function name =>
    simp only [callCode, bind_eq_ok, pure_eq_ok] at h
    obtain ⟨c, hc, f, hf, rfl⟩ := h
    rw [List.length_append, ← Nat.add_assoc]
    have hinvoke := invoke_plain hf
    rw [List.length_map] at hinvoke
    exact (exprs_replaces hm hsize arguments hc hat.left).append (.plain hm hat.right hinvoke)

mutual

/-- The code of a statement leaves the stack as it was. -/
theorem stmt_replaces (hm : StackMap r stack) (hsize : r.code.size < 2 ^ 32) {owner : String}
    {slots slots' : Slots} {base : Nat} {code : Code} (s : Typed.Stmt)
    (h : stmtCode owner slots base s = .ok (code, slots')) (hat : CodeAt r base code) :
    Replaces stack base (base + code.length) 0 0 := by
  cases s with
  | assign name value =>
    obtain ⟨c, store, hc, hstore, rfl, -⟩ := stmtCode_assign h
    rw [List.length_append, ← Nat.add_assoc]
    exact (expr_replaces hm hsize value hc hat.left).append
      (.plain hm hat.right (assignCode_plain hstore))
  | declare access name value =>
    obtain ⟨c, slot, store, hc, -, hstore, rfl⟩ := stmtCode_declare h
    rw [List.length_append, ← Nat.add_assoc]
    exact (expr_replaces hm hsize value hc hat.left).append
      (.plain hm hat.right (storeCode_plain hstore))
  | ifThen guard yes =>
    obtain ⟨g, y, inner, hg, hy, rfl, -⟩ := stmtCode_ifThen h
    obtain ⟨hgat, -, hyat, -⟩ := hat.conditional
    exact conditional_replaces hm hsize hat (expr_replaces hm hsize guard hg hgat)
      (stmt_replaces hm hsize yes hy hyat)
  | ifElse guard yes no =>
    obtain ⟨g, y, n, inner, inner', hg, hy, -, rfl, -⟩ := stmtCode_ifElse h
    obtain ⟨hgat, -, hyat, -⟩ := hat.conditional
    exact conditional_replaces hm hsize hat (expr_replaces hm hsize guard hg hgat)
      (stmt_replaces hm hsize yes hy hyat)
  | whileDo guard body =>
    obtain ⟨g, b, inner, hg, -, rfl, -⟩ := stmtCode_whileDo h
    obtain ⟨hgat, -⟩ := hat.loop
    exact loop_replaces hm hsize hat (expr_replaces hm hsize guard hg hgat)
  | block body =>
    obtain ⟨inner, hb, -⟩ := stmtCode_block h
    exact stmts_replaces hm hsize body hb hat
  | call callee arguments =>
    obtain ⟨hcall, -⟩ := stmtCode_call h
    exact call_replaces hm hsize hcall hat
  | empty =>
    cases h
    exact .nil base 0

theorem stmts_replaces (hm : StackMap r stack) (hsize : r.code.size < 2 ^ 32) {owner : String}
    {slots slots' : Slots} {base : Nat} {code : Code} (body : List Typed.Stmt)
    (h : stmtsCode owner slots base body = .ok (code, slots')) (hat : CodeAt r base code) :
    Replaces stack base (base + code.length) 0 0 := by
  cases body with
  | nil =>
    cases h
    exact .nil base 0
  | cons s rest =>
    obtain ⟨c, between, others, hc, hothers, rfl⟩ := stmtsCode_cons h
    rw [List.length_append, ← Nat.add_assoc]
    exact (stmt_replaces hm hsize s hc hat.left).append
      (stmts_replaces hm hsize rest hothers hat.right)

end

/-! ## Routines -/

/-- Wherever the routine has the code of a tree: an expression leaves one value on the stack that it
began with, and a statement leaves none. -/
structure Balanced (r : Routine) (stack : Nat → List Kind) : Prop where
  expr : ∀ {owner slots base e code}, exprCode owner slots base e = .ok code →
    CodeAt r base code → ∃ k, stack (base + code.length) = k :: stack base
  stmt : ∀ {owner slots base s code slots'}, stmtCode owner slots base s = .ok (code, slots') →
    CodeAt r base code → stack (base + code.length) = stack base

theorem StackMap.balanced (hm : StackMap r stack) (hsize : r.code.size < 2 ^ 32) :
    Balanced r stack := by
  constructor
  · intro owner slots base e code hcode hat
    obtain ⟨top, htop, hstack⟩ := expr_replaces hm hsize e hcode hat [] (stack base) rfl rfl
    obtain ⟨k, rfl⟩ := List.length_eq_one_iff.mp htop
    exact ⟨k, hstack⟩
  · intro owner slots base s code slots' hcode hat
    obtain ⟨top, htop, hstack⟩ := stmt_replaces hm hsize s hcode hat [] (stack base) rfl rfl
    obtain rfl := List.length_eq_zero_iff.mp htop
    exact hstack

end

/-- Stack discipline. Each routine of an accepted program has a map of stacks, on which no expression
leaves more or less than one value, and neither a statement nor a round of a loop leaves any. -/
theorem compile_stackMap {p : Surface.Program} {name : String} {m : Module}
    (hcompile : Compiler.compile p name = .ok m)
    (hsize : ∀ r ∈ m.routines, r.code.size < 2 ^ 32) :
    ∀ r ∈ m.routines, ∃ stack, StackMap r stack ∧ Balanced r stack := by
  intro r hr
  obtain ⟨t, G, -, -, hp, hc⟩ := exists_compiled hcompile
  obtain rfl := compile_name hc
  obtain ⟨shape, hshape⟩ := annotated_of_compiled hp hc hsize r hr
  have hm := stackMap_of_annotated hshape
  exact ⟨_, hm, hm.balanced (hsize r hr)⟩

/-- Prints under a loop, with the stream below the branches of a ternary expression, and has a
function named like the initializer. -/
def printing : Surface.Program where
  declarations :=
    [.function ⟨"<init>", {}⟩ [] [] none,
      .function ⟨"main", {}⟩ []
        [.declare .readWrite ⟨"n", {}⟩ (.literal (.int "3" {})),
          .whileDo (.binary .greaterThan (.name ⟨"n", {}⟩) (.literal (.int "0" {})))
            (.block
              [.call ⟨"print", {}⟩ [.ternary (.binary .equal (.name ⟨"n", {}⟩)
                (.literal (.int "1" {}))) (.literal (.int "7" {})) (.name ⟨"n", {}⟩)],
                .assign ⟨"n", {}⟩ (.binary .minus (.name ⟨"n", {}⟩) (.literal (.int "1" {})))])]
        none]

def printingModule : Module where
  name := "demo"
  fields := []
  routines :=
    [Lowering.initializer, ⟨"<init>", .void, 0, #[.ret]⟩,
      ⟨"main", .void, 2, #[.iconst 3, .istore 1, .iload 1, .iconst 0, .ifCompare .gt 7, .iconst 0,
        .goto 8, .iconst 1, .ifZero .eq 26, .getStdout, .iload 1, .iconst 1, .ifCompare .eq 15,
        .iconst 0, .goto 16, .iconst 1, .ifZero .eq 19, .iconst 7, .goto 20, .iload 1, .print .int,
        .iload 1, .iconst 1, .isub, .istore 1, .goto 2, .ret]⟩]

theorem compile_stackMap_printing :
    Compiler.compile printing "demo" = .ok printingModule ∧
      (∀ r ∈ printingModule.routines, r.code.size < 2 ^ 32) ∧
      ∀ r ∈ printingModule.routines, ∃ stack, StackMap r stack ∧ Balanced r stack := by
  have hcompile : Compiler.compile printing "demo" = .ok printingModule := by decide +kernel
  exact ⟨hcompile, by decide, compile_stackMap hcompile (by decide)⟩

end PZero.Stack
