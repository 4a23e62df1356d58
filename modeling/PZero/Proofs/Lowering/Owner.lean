import PZero.Compiler
import PZero.Proofs.Lowering.Code

/-! # The name of a module

A module writes its own name into every reference to a field or a routine. The code of a
program under another name is the same code with the other name in those places, and a
program without code fails for the same reason under every name.
-/
namespace PZero

/-! ## Computations side by side -/

/-- Two computations fail alike, or both succeed and their results are related. -/
inductive Parallel {ε α β : Type} (R : α → β → Prop) : Except ε α → Except ε β → Prop
  | error (e : ε) : Parallel R (.error e) (.error e)
  | ok {a b} : R a b → Parallel R (.ok a) (.ok b)

namespace Parallel
variable {ε α β γ δ : Type} {R : α → β → Prop} {S : γ → δ → Prop}

theorem bind {x : Except ε α} {y : Except ε β} {f : α → Except ε γ} {g : β → Except ε δ}
    (h : Parallel R x y) (hfg : ∀ a b, R a b → Parallel S (f a) (g b)) :
    Parallel S (x >>= f) (y >>= g) := by
  cases h with
  | error e => exact .error e
  | ok hab => exact hfg _ _ hab

theorem same {R : α → α → Prop} {x : Except ε α} (h : ∀ a, x = .ok a → R a a) :
    Parallel R x x := by
  cases x with
  | error e => exact .error e
  | ok a => exact .ok (h a rfl)

/-- The same computation on both sides. -/
theorem bind_same {x : Except ε α} {f : α → Except ε γ} {g : α → Except ε δ}
    (h : ∀ a, Parallel S (f a) (g a)) : Parallel S (x >>= f) (x >>= g) := by
  cases x with
  | error e => exact .error e
  | ok a => exact h a

theorem mapM {f : α → Except ε γ} {g : α → Except ε δ} (h : ∀ a, Parallel S (f a) (g a))
    (l : List α) : Parallel (List.Forall₂ S) (l.mapM f) (l.mapM g) := by
  induction l with
  | nil => exact .ok .nil
  | cons a l ih =>
    rw [List.mapM_cons, List.mapM_cons]
    refine (h a).bind fun b b' hb => ?_
    exact ih.bind fun bs bs' hbs => .ok (.cons hb hbs)

theorem mapError {ε' : Type} (f : ε → ε') {x : Except ε α} {y : Except ε β}
    (h : Parallel R x y) : Parallel R (x.mapError f) (y.mapError f) := by
  cases h with
  | error e => exact .error (f e)
  | ok hab => exact .ok hab

theorem eq_map {f : α → β} {x : Except ε α} {y : Except ε β}
    (h : Parallel (fun a b => b = f a) x y) : y = x.map f := by
  cases h with
  | error e => rfl
  | ok hab => exact congrArg Except.ok hab

end Parallel

/-! ## Renaming -/

namespace Bytecode

/-- The owner of a reference after a module was renamed. -/
def reowned (old new owner : String) : String := if owner = old then new else owner

@[simp] theorem reowned_self (old new : String) : reowned old new old = new := if_pos rfl

def FieldRef.reowned (old new : String) (r : FieldRef) : FieldRef :=
  { r with owner := Bytecode.reowned old new r.owner }

def RoutineRef.reowned (old new : String) (r : RoutineRef) : RoutineRef :=
  { r with owner := Bytecode.reowned old new r.owner }

def Instruction.reowned (old new : String) : Instruction → Instruction
  | .getStatic r => .getStatic (r.reowned old new)
  | .putStatic r => .putStatic (r.reowned old new)
  | .invoke r => .invoke (r.reowned old new)
  | i => i

def Routine.reowned (old new : String) (r : Routine) : Routine :=
  { r with code := r.code.map (Instruction.reowned old new) }

/-- The module with one name taken for another, in itself and in all its references. -/
def Module.renamed (old new : String) (m : Module) : Module where
  name := reowned old new m.name
  fields := m.fields
  routines := m.routines.map (Routine.reowned old new)

end Bytecode

namespace Lowering
open Bytecode

/-! ## Code -/

section
variable {old new : String} {slots : Slots} {base : Nat}

/-- Code under the old name and under the new one. -/
def Recoded (old new : String) (code code' : Code) : Prop :=
  code' = code.map (Instruction.reowned old new)

@[simp] theorem yesStart_map (f : Instruction → Instruction) (base : Nat) (guard : Code) :
    yesStart base (guard.map f) = yesStart base guard := by
  simp [yesStart]

@[simp] theorem noStart_map (f : Instruction → Instruction) (base : Nat) (guard yes : Code) :
    noStart base (guard.map f) (yes.map f) = noStart base guard yes := by
  simp [noStart]

namespace Recoded
variable {code code' guard guard' yes yes' no no' : Code}

theorem nil : Recoded old new [] [] := rfl

theorem cons {i i' : Instruction} (hi : i' = i.reowned old new) (h : Recoded old new code code') :
    Recoded old new (i :: code) (i' :: code') := by
  rw [Recoded, List.map_cons, ← hi, ← h]

theorem append (h : Recoded old new guard guard') (h' : Recoded old new code code') :
    Recoded old new (guard ++ code) (guard' ++ code') := by
  rw [Recoded, List.map_append, ← h, ← h']

theorem length_eq (h : Recoded old new code code') : code'.length = code.length := by
  rw [h, List.length_map]

theorem conditional (base : Nat) (hg : Recoded old new guard guard')
    (hy : Recoded old new yes yes') (hn : Recoded old new no no') :
    Recoded old new (conditional base guard yes no) (conditional base guard' yes' no') := by
  subst hg hy hn
  simp [Recoded, Lowering.conditional, Instruction.reowned]

theorem loop (base : Nat) (hg : Recoded old new guard guard') (hy : Recoded old new yes yes') :
    Recoded old new (loop base guard yes) (loop base guard' yes') := by
  subst hg hy
  simp [Recoded, Lowering.loop, Instruction.reowned]

end Recoded

theorem reowned_of_isOperator {i : Instruction} (h : IsOperator i) : i.reowned old new = i := by
  cases i <;> trivial

/-- Code without references is the same under both names. -/
theorem recoded_of_forall {code : Code} (h : ∀ i ∈ code, i.reowned old new = i) :
    Recoded old new code code := by
  rw [Recoded, List.map_congr_left h, List.map_id']

theorem recoded_operatorCode {code : Code} (h : OperatorCode base code) :
    Recoded old new code code := by
  have hoperators : ∀ {ops : Code}, (∀ i ∈ ops, IsOperator i) → Recoded old new ops ops :=
    fun hops => recoded_of_forall fun i hi => reowned_of_isOperator (hops i hi)
  cases h with
  | plain h => exact hoperators h
  | ifZero condition h => exact (hoperators h).append rfl
  | ifCompare condition => exact rfl

/-! ## References -/

variable (old new slots base)

theorem fieldRef_parallel (name : String) (t : Ty) :
    Parallel (fun r r' => r' = r.reowned old new) (fieldRef old name t) (fieldRef new name t) := by
  refine .bind_same fun t => .ok ?_
  rw [FieldRef.reowned, reowned_self]

theorem routineRef_parallel (name : String) (arguments : List Ty) (result : Option Ty) :
    Parallel (fun r r' => r' = r.reowned old new) (routineRef old name arguments result)
      (routineRef new name arguments result) := by
  refine .bind_same fun d => .ok ?_
  rw [RoutineRef.reowned, reowned_self]

theorem nameCode_parallel (t : Ty) (name : String) :
    Parallel (fun i i' => i' = i.reowned old new) (nameCode old slots t name)
      (nameCode new slots t name) := by
  unfold nameCode
  split
  · exact .ok rfl
  · exact .ok rfl
  · exact .ok rfl
  · exact .error _
  · refine (fieldRef_parallel old new name _).bind fun r r' hr => .ok ?_
    rw [hr, Instruction.reowned]

theorem storeCode_parallel (t : Ty) (slot : UInt16) :
    Parallel (fun i i' => i' = i.reowned old new) (storeCode t slot) (storeCode t slot) := by
  cases t with
  | int | bool | float => exact .ok rfl
  | string | error => exact .error _

theorem assignCode_parallel (t : Ty) (name : String) :
    Parallel (fun i i' => i' = i.reowned old new) (assignCode old slots t name)
      (assignCode new slots t name) := by
  unfold assignCode
  cases slots.get? name with
  | some slot => exact storeCode_parallel old new t slot
  | none =>
    refine (fieldRef_parallel old new name t).bind fun r r' hr => .ok ?_
    rw [hr, Instruction.reowned]

/-- The code in front of a call goes on with the call itself. -/
theorem invoke_parallel {x y : Except Error Code} (h : Parallel (Recoded old new) x y)
    (name : String) (arguments : List Ty) (result : Option Ty) :
    Parallel (Recoded old new)
      (do let code ← x; return code ++ [.invoke (← routineRef old name arguments result)])
      (do let code ← y; return code ++ [.invoke (← routineRef new name arguments result)]) := by
  refine h.bind fun code code' hcode => ?_
  refine (routineRef_parallel old new name arguments result).bind fun r r' hr => .ok ?_
  exact hcode.append (.cons (congrArg Instruction.invoke hr) .nil)

/-! ## Expressions -/

theorem binaryCode_parallel (op : BinOp) (t : Ty) :
    Parallel (Recoded old new) (binaryCode base op t) (binaryCode base op t) :=
  .same fun _ h => recoded_operatorCode (binaryCode_operatorCode h)

theorem unaryCode_parallel (op : UnOp) (t : Ty) :
    Parallel (Recoded old new) (unaryCode base op t) (unaryCode base op t) :=
  .same fun _ h => recoded_operatorCode (unaryCode_operatorCode h)

mutual

theorem exprCode_parallel (base : Nat) (e : Typed.Expr) :
    Parallel (Recoded old new) (exprCode old slots base e) (exprCode new slots base e) := by
  match e with
  | .ternary guard yes no =>
    rw [exprCode, exprCode]
    refine (exprCode_parallel base guard).bind ?_
    rintro g _ rfl
    rw [yesStart_map]
    refine (exprCode_parallel _ yes).bind ?_
    rintro y _ rfl
    rw [noStart_map]
    refine (exprCode_parallel _ no).bind fun n n' hn => .ok ?_
    exact .conditional base rfl rfl hn
  | .binary op left right =>
    rw [exprCode, exprCode]
    refine (exprCode_parallel base left).bind fun l l' hl => ?_
    rw [hl.length_eq]
    refine (exprCode_parallel _ right).bind fun r r' hr => ?_
    rw [hr.length_eq]
    refine (binaryCode_parallel old new _ op left.ty).bind fun combine combine' hc => .ok ?_
    exact (hl.append hr).append hc
  | .unary t op operand =>
    rw [exprCode, exprCode]
    refine (exprCode_parallel base operand).bind fun c c' hcode => ?_
    rw [hcode.length_eq]
    refine (unaryCode_parallel old new _ op t).bind fun apply apply' ha => .ok ?_
    exact hcode.append ha
  | .call t name arguments =>
    rw [exprCode, exprCode]
    exact invoke_parallel old new (exprsCode_parallel base arguments) name _ _
  | .name t name =>
    rw [exprCode, exprCode]
    exact (nameCode_parallel old new slots t name).bind fun i i' hi => .ok (.cons hi .nil)
  | .literal v => exact .ok (by cases v <;> rfl)

theorem exprsCode_parallel (base : Nat) (es : List Typed.Expr) :
    Parallel (Recoded old new) (exprsCode old slots base es) (exprsCode new slots base es) := by
  match es with
  | [] => exact .ok .nil
  | e :: rest =>
    rw [exprsCode, exprsCode]
    refine (exprCode_parallel base e).bind fun c c' hcode => ?_
    rw [hcode.length_eq]
    exact (exprsCode_parallel _ rest).bind fun others others' ho => .ok (hcode.append ho)

end

/-! ## Statements -/

theorem printCode_parallel (t : Ty) :
    Parallel (fun i i' => i' = i.reowned old new) (printCode t) (printCode t) := by
  cases t with
  | int | bool | string | float => exact .ok rfl
  | error => exact .error _

theorem printsCode_parallel (base : Nat) (es : List Typed.Expr) :
    Parallel (Recoded old new) (printsCode old slots base es) (printsCode new slots base es) := by
  induction es generalizing base with
  | nil => exact .ok .nil
  | cons e rest ih =>
    rw [printsCode, printsCode]
    refine (exprCode_parallel old new slots (base + 1) e).bind fun c c' hcode => ?_
    refine (printCode_parallel old new e.ty).bind fun print print' hprint => ?_
    rw [hcode.length_eq]
    refine (ih _).bind fun others others' ho => .ok ?_
    exact .cons rfl (hcode.append (.cons hprint ho))

theorem callCode_parallel (base : Nat) (callee : Typed.Callee) (arguments : List Typed.Expr) :
    Parallel (Recoded old new) (callCode old slots base callee arguments)
      (callCode new slots base callee arguments) := by
  cases callee with
  | print => exact printsCode_parallel old new slots base arguments
  | println =>
    refine (printsCode_parallel old new slots base arguments).bind fun c c' hcode => .ok ?_
    exact hcode.append rfl
  | function name =>
    exact invoke_parallel old new (exprsCode_parallel old new slots base arguments) name _ _

end

/-- Code and slots behind it under the old name and under the new one. -/
def RecodedStmt (old new : String) (a a' : Code × Slots) : Prop :=
  Recoded old new a.1 a'.1 ∧ a'.2 = a.2

mutual

theorem stmtCode_parallel (old new : String) (slots : Slots) (base : Nat) (s : Typed.Stmt) :
    Parallel (RecodedStmt old new) (stmtCode old slots base s) (stmtCode new slots base s) := by
  match s with
  | .assign name value =>
    rw [stmtCode, stmtCode]
    refine (exprCode_parallel old new slots base value).bind fun c c' hcode => ?_
    refine (assignCode_parallel old new slots value.ty name).bind fun i i' hi => .ok ?_
    exact ⟨hcode.append (.cons hi .nil), rfl⟩
  | .declare access name value =>
    rw [stmtCode, stmtCode]
    refine (exprCode_parallel old new slots base value).bind fun c c' hcode => ?_
    refine .bind_same fun bound => ?_
    refine (storeCode_parallel old new value.ty bound.1).bind fun i i' hi => .ok ?_
    exact ⟨hcode.append (.cons hi .nil), rfl⟩
  | .ifThen guard yes =>
    rw [stmtCode, stmtCode]
    refine (exprCode_parallel old new slots base guard).bind ?_
    rintro g _ rfl
    rw [yesStart_map]
    refine (stmtCode_parallel old new slots.openScope _ yes).bind ?_
    rintro ⟨y, _⟩ ⟨y', inner⟩ ⟨hy, rfl⟩
    exact .ok ⟨.conditional base rfl hy .nil, rfl⟩
  | .ifElse guard yes no =>
    rw [stmtCode, stmtCode]
    refine (exprCode_parallel old new slots base guard).bind ?_
    rintro g _ rfl
    rw [yesStart_map]
    refine (stmtCode_parallel old new slots.openScope _ yes).bind ?_
    rintro ⟨y, _⟩ ⟨y', inner⟩ ⟨hy, rfl⟩
    obtain rfl : y' = y.map (Instruction.reowned old new) := hy
    simp only [noStart_map]
    refine (stmtCode_parallel old new inner.closeScope.openScope _ no).bind ?_
    rintro ⟨n, _⟩ ⟨n', last⟩ ⟨hn, rfl⟩
    exact .ok ⟨.conditional base rfl rfl hn, rfl⟩
  | .whileDo guard body =>
    rw [stmtCode, stmtCode]
    refine (exprCode_parallel old new slots base guard).bind ?_
    rintro g _ rfl
    rw [yesStart_map]
    refine (stmtCode_parallel old new slots.openScope _ body).bind ?_
    rintro ⟨b, _⟩ ⟨b', inner⟩ ⟨hb, rfl⟩
    exact .ok ⟨.loop base rfl hb, rfl⟩
  | .block body =>
    rw [stmtCode, stmtCode]
    refine (stmtsCode_parallel old new slots.openScope base body).bind ?_
    rintro ⟨c, _⟩ ⟨c', inner⟩ ⟨hcode, rfl⟩
    exact .ok ⟨hcode, rfl⟩
  | .call callee arguments =>
    rw [stmtCode, stmtCode]
    refine (callCode_parallel old new slots base callee arguments).bind fun c c' hcode => .ok ?_
    exact ⟨hcode, rfl⟩
  | .empty => exact .ok ⟨.nil, rfl⟩

theorem stmtsCode_parallel (old new : String) (slots : Slots) (base : Nat)
    (body : List Typed.Stmt) :
    Parallel (RecodedStmt old new) (stmtsCode old slots base body)
      (stmtsCode new slots base body) := by
  match body with
  | [] => exact .ok ⟨.nil, rfl⟩
  | s :: rest =>
    rw [stmtsCode, stmtsCode]
    refine (stmtCode_parallel old new slots base s).bind ?_
    rintro ⟨c, _⟩ ⟨c', between⟩ ⟨hcode, rfl⟩
    dsimp only
    rw [hcode.length_eq]
    refine (stmtsCode_parallel old new between _ rest).bind ?_
    rintro ⟨others, _⟩ ⟨others', last⟩ ⟨ho, rfl⟩
    exact .ok ⟨hcode.append ho, rfl⟩

end

/-! ## Routines and modules -/

section
variable (old new : String)

theorem reowned_initializer : initializer.reowned old new = initializer := by
  simp [initializer, Routine.reowned, Instruction.reowned]

theorem resultCode_parallel (slots : Slots) (base : Nat) (name : String)
    (result : Option Typed.Expr) :
    Parallel (Recoded old new) (resultCode old slots base name result)
      (resultCode new slots base name result) := by
  cases result with
  | none => exact .ok rfl
  | some e =>
    refine (exprCode_parallel old new slots base e).bind fun c c' hcode => ?_
    have hreturn : Parallel (fun i i' => i' = i.reowned old new) (returnCode name e.ty)
        (returnCode name e.ty) := by
      cases e.ty with
      | int | bool | float => exact .ok rfl
      | string | error => exact .error _
    exact hreturn.bind fun i i' hi => .ok (hcode.append (.cons hi .nil))

theorem Recoded.toArray {code code' : Code} (h : Recoded old new code code') :
    code'.toArray = code.toArray.map (Instruction.reowned old new) := by
  rw [h, List.map_toArray]

theorem functionRoutine_parallel (f : Typed.Function) :
    Parallel (fun r r' => r' = r.reowned old new) (functionRoutine old f)
      (functionRoutine new f) := by
  refine .bind_same fun slots => ?_
  refine (stmtsCode_parallel old new slots 0 f.body).bind ?_
  rintro ⟨body, _⟩ ⟨body', last⟩ ⟨hbody, rfl⟩
  dsimp only
  rw [hbody.length_eq]
  refine (resultCode_parallel old new last body.length f.name f.result).bind fun t t' ht => ?_
  refine .bind_same fun d => .ok ?_
  rw [(hbody.append ht).toArray]
  rfl

theorem entryRoutine_parallel (statement : Typed.Stmt) :
    Parallel (fun r r' => r' = r.reowned old new) (entryRoutine old statement)
      (entryRoutine new statement) := by
  refine (stmtCode_parallel old new (Slots.start 1) 0 statement).bind ?_
  rintro ⟨code, _⟩ ⟨code', slots⟩ ⟨hcode, rfl⟩
  refine .ok ?_
  have hall : Recoded old new (code ++ [.ret]) (code' ++ [.ret]) := hcode.append rfl
  rw [hall.toArray]
  rfl

theorem compile_parallel (p : Typed.Program) :
    Parallel (fun m m' => m' = m.renamed old new) (compile p old) (compile p new) := by
  refine (Parallel.mapM (functionRoutine_parallel old new) (functions p)).bind fun rs rs' hrs => ?_
  refine (entryRoutine_parallel old new p.statement).bind fun r r' hr => .ok ?_
  have hmap : rs' = rs.map (Routine.reowned old new) := by
    induction hrs with
    | nil => rfl
    | cons h _ ih => rw [h, ih, List.map_cons]
  rw [hmap, hr]
  simp [Module.renamed, reowned_initializer]

end

end Lowering

/-- A program has the same module under every name, but for the name, or fails for the same
reason. -/
theorem Compiler.compile_renamed (p : Surface.Program) (old new : String) :
    compile p new = (compile p old).map (Bytecode.Module.renamed old new) :=
  (Parallel.bind_same fun t => (Lowering.compile_parallel old new t).mapError _).eq_map

end PZero
