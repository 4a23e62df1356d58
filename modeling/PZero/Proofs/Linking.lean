import PZero.Proofs.Safety.Program

/-! # Compiled modules are coherent

Whatever the code of a compiled module names is there, also where the machine does
not look: slots below the size of the frame, fields of the type they are used with,
of which only those are written to that may be, and routines with the descriptor of
the call. Code that is never reached is no exception.
-/
namespace PZero.Bytecode

/-- What an instruction refers to is there, in a frame of the given size. -/
def Instruction.Resolves (m : Module) (frame : UInt16) : Instruction → Prop
  | .iload n | .fload n | .istore n | .fstore n => n < frame
  | .getStatic f =>
    f.owner = m.name ∧ ∃ field ∈ m.fields, field.name = f.name ∧ field.type = f.type
  | .putStatic f =>
    f.owner = m.name ∧ (∃ field ∈ m.fields, field.name = f.name ∧ field.type = f.type) ∧
      ∀ field ∈ m.fields, field.name = f.name → field.isFinal = false
  | .invoke f =>
    f.owner = m.name ∧ ∃ r ∈ m.routines, r.name = f.name ∧ r.descriptor = f.descriptor
  | _ => True

/-- How a routine with a result of the type ends. -/
inductive Instruction.Ends : Option FieldType → Instruction → Prop
  | void : Ends none .ret
  | int : Ends (some .int) .iret
  | bool : Ends (some .bool) .iret
  | float : Ends (some .float) .fret

/-- References, jumps, slots and the end of a routine are in order. -/
structure Routine.Coherent (m : Module) (r : Routine) : Prop where
  resolves : ∀ i ∈ r.code, i.Resolves m r.maxLocals
  targets : ∀ i ∈ r.code, ∀ t ∈ i.target?, t.toNat < r.code.size
  parameters : r.descriptor.parameters.length ≤ r.maxLocals.toNat
  last : ∃ i, r.code.back? = some i ∧ i.Ends r.descriptor.result

/-- Names are distinct, constants have the type of their field, and all routines are in order. -/
structure Module.Coherent (m : Module) : Prop where
  fields : (m.fields.map (·.name)).Nodup
  routines : (m.routines.map (·.name)).Nodup
  initial : ∀ field ∈ m.fields, field.initial.type = field.type
  coherent : ∀ r ∈ m.routines, r.Coherent m

end PZero.Bytecode

namespace PZero.Linking
open Bytecode Rules Lowering Safety Machine

/-! ## Jumps -/

/-- In annotated code no jump leads out. -/
theorem target_lt_of_annotated {m : Module} {r : Routine} {shape : Nat → Shape}
    (h : Annotated m r shape) {i : Instruction} (hi : i ∈ r.code) {t : UInt32}
    (ht : t ∈ i.target?) : t.toNat < r.code.size := by
  obtain ⟨pc, hpc, rfl⟩ := Array.mem_iff_getElem.mp hi
  obtain ⟨i, s, hcode, -, hsucc⟩ := h.code pc hpc
  rw [Array.getElem?_eq_getElem hpc] at hcode
  rw [Option.some.inj hcode] at ht
  have hmem : t.toNat ∈ i.successors pc := by
    cases i with
    | ifZero | ifCompare =>
      cases ht
      exact .tail _ (.head _)
    | goto =>
      cases ht
      exact .head _
    | _ => cases ht
  exact (hsucc _ hmem).1

/-! ## References -/

/-- The module has the global names of the table, and those that may be written to are not final. -/
structure Offers (m : Module) (G : Globals) : Prop extends Provides m G where
  writable : ∀ {name t}, G.lookup name = some (.value .readWrite t) →
    ∀ field ∈ m.fields, field.name = name → field.isFinal = false

theorem offers_of_compiled {G : Globals} {p : Typed.Program} {m : Module} (hp : ProgramType G p)
    (hc : compile p m.name = .ok m) : Offers m G := by
  refine ⟨provides_of_compiled hp hc, ?_⟩
  intro name t hG field hfield hname
  obtain ⟨v, hmem, -⟩ := hp.value hG
  have hfields := compile_fields hc
  have hnodup := nodup_fields hp hc
  have hdeclared : fieldOf .readWrite name v ∈ m.fields := by
    rw [hfields]
    exact mem_fields.mpr ⟨_, _, _, hmem, rfl⟩
  rw [List.inj_on_of_nodup_map hnodup hfield hdeclared hname]
  rfl

theorem offers_of_linked {G : Globals} {p : Typed.Program} {m : Module}
    (hl : Linked G p m.name m) : Offers m G :=
  offers_of_compiled hl.program hl.compiled

def AllResolve (m : Module) (frame : UInt16) (code : Code) : Prop :=
  ∀ i ∈ code, i.Resolves m frame

section
variable {m : Module} {frame : UInt16} {base : Nat} {code guard yes no body : Code}
  {i : Instruction}

@[simp] theorem allResolve_nil : AllResolve m frame [] := fun _ h => nomatch h

@[simp] theorem allResolve_cons :
    AllResolve m frame (i :: code) ↔ i.Resolves m frame ∧ AllResolve m frame code :=
  List.forall_mem_cons

@[simp] theorem allResolve_append :
    AllResolve m frame (guard ++ code) ↔ AllResolve m frame guard ∧ AllResolve m frame code :=
  List.forall_mem_append

theorem allResolve_conditional (hg : AllResolve m frame guard) (hy : AllResolve m frame yes)
    (hn : AllResolve m frame no) : AllResolve m frame (conditional base guard yes no) := by
  simp [conditional, hg, hy, hn, Instruction.Resolves]

theorem allResolve_loop (hg : AllResolve m frame guard) (hb : AllResolve m frame body) :
    AllResolve m frame (loop base guard body) := by
  simp [loop, hg, hb, Instruction.Resolves]

theorem allResolve_verdict {jump : UInt32 → Instruction} (h : ∀ t, (jump t).Resolves m frame) :
    AllResolve m frame (verdict base jump) := by
  simp only [verdict, allResolve_cons]
  exact ⟨h _, trivial, trivial, trivial, allResolve_nil⟩

theorem resolves_of_isOperator (h : IsOperator i) : i.Resolves m frame := by
  cases i <;> trivial

theorem allResolve_operatorCode (h : OperatorCode base code) : AllResolve m frame code := by
  cases h with
  | plain h => exact fun i hi => resolves_of_isOperator (h i hi)
  | ifZero condition h =>
    exact allResolve_append.mpr
      ⟨fun i hi => resolves_of_isOperator (h i hi), allResolve_verdict fun _ => trivial⟩
  | ifCompare condition => exact allResolve_verdict fun _ => trivial

theorem resolves_invoke {G : Globals} {L : Locals} (hm : Offers m G) {name : String}
    {parameters : List FieldType} {result : Option FieldType}
    (h : meaningOf G L name = some (.function parameters result)) :
    (Instruction.invoke ⟨m.name, name, ⟨parameters, result⟩⟩).Resolves m frame := by
  obtain ⟨r, hr, hdescriptor⟩ := hm.function (meaningOf_eq_function h)
  exact ⟨rfl, r, mem_of_routine? hr, by simpa using List.find?_some hr, hdescriptor⟩

end

section
variable {m : Module} {G : Globals} {L L' : Locals} {reserved : List Kind} {slots slots' : Slots}
  {frame : UInt16} {base : Nat} {code : Code}

theorem resolves_nameCode (hm : Offers m G) (hl : Laid reserved slots L)
    (hmax : slots.maxLocals ≤ frame) {name : String} {access : Access} {t : FieldType}
    (h : meaningOf G L name = some (.value access t)) {i : Instruction}
    (hi : nameCode m.name slots (typeOf t) name = .ok i) : i.Resolves m frame := by
  rcases hl.value_cases h with ⟨slot, hslot, hlt, -⟩ | ⟨hnone, hglobal⟩
  · have hlt : slot < frame := Nat.lt_of_lt_of_le hlt (UInt16.le_iff_toNat_le.mp hmax)
    rcases nameCode_local hslot hi with ⟨-, rfl⟩ | ⟨-, rfl⟩
    · exact hlt
    · exact hlt
  · obtain rfl := nameCode_global hnone hi
    exact ⟨rfl, hm.value hglobal⟩

theorem resolves_storeCode {t : FieldType} {slot : UInt16} (hlt : slot < frame) {i : Instruction}
    (hi : storeCode (typeOf t) slot = .ok i) : i.Resolves m frame := by
  rcases storeCode_typeOf hi with ⟨-, rfl⟩ | ⟨-, rfl⟩
  · exact hlt
  · exact hlt

theorem resolves_assignCode (hm : Offers m G) (hl : Laid reserved slots L)
    (hmax : slots.maxLocals ≤ frame) {name : String} {t : FieldType}
    (h : meaningOf G L name = some (.value .readWrite t)) {i : Instruction}
    (hi : assignCode m.name slots (typeOf t) name = .ok i) : i.Resolves m frame := by
  rcases hl.value_cases h with ⟨slot, hslot, hlt, -⟩ | ⟨hnone, hglobal⟩
  · rw [assignCode, hslot] at hi
    exact resolves_storeCode (Nat.lt_of_lt_of_le hlt (UInt16.le_iff_toNat_le.mp hmax)) hi
  · obtain rfl := assignCode_global hnone hi
    exact ⟨rfl, hm.value hglobal, hm.writable hglobal⟩

/-! ## Code -/

mutual

theorem allResolve_exprCode (hm : Offers m G) (hl : Laid reserved slots L)
    (hmax : slots.maxLocals ≤ frame) {e : Typed.Expr} {t : FieldType} (h : ExprType G L e t)
    {base : Nat} {code : Code} (hcode : exprCode m.name slots base e = .ok code) :
    AllResolve m frame code :=
  match h with
  | .ternary hg hy hn => by
    obtain ⟨g, y, n, hgc, hyc, hnc, rfl⟩ := exprCode_ternary hcode
    exact allResolve_conditional (allResolve_exprCode hm hl hmax hg hgc)
      (allResolve_exprCode hm hl hmax hy hyc) (allResolve_exprCode hm hl hmax hn hnc)
  | .binary hleft hright _ => by
    obtain ⟨a, b, combine, hac, hbc, hcombine, rfl⟩ := exprCode_binary hcode
    simp only [allResolve_append]
    exact ⟨⟨allResolve_exprCode hm hl hmax hleft hac, allResolve_exprCode hm hl hmax hright hbc⟩,
      allResolve_operatorCode (binaryCode_operatorCode hcombine)⟩
  | .unary he _ => by
    obtain ⟨c, apply, hc, happly, rfl⟩ := exprCode_unary hcode
    exact allResolve_append.mpr
      ⟨allResolve_exprCode hm hl hmax he hc, allResolve_operatorCode (unaryCode_operatorCode happly)⟩
  | .call hf hes => by
    obtain ⟨c, hc, rfl⟩ := exprCode_call hes.map_ty hcode
    simp only [allResolve_append, allResolve_cons, allResolve_nil, and_true]
    exact ⟨allResolve_exprsCode hm hl hmax hes hc, resolves_invoke hm hf⟩
  | .name hx => by
    obtain ⟨i, hi, rfl⟩ := exprCode_name hcode
    exact allResolve_cons.mpr ⟨resolves_nameCode hm hl hmax hx hi, allResolve_nil⟩
  | @ExprType.literal _ _ v => by
    cases hcode
    cases v <;> simp [literalCode, Instruction.Resolves]

theorem allResolve_exprsCode (hm : Offers m G) (hl : Laid reserved slots L)
    (hmax : slots.maxLocals ≤ frame) {es : List Typed.Expr} {ts : List FieldType}
    (h : ExprTypes G L es ts) {base : Nat} {code : Code}
    (hcode : exprsCode m.name slots base es = .ok code) : AllResolve m frame code :=
  match h with
  | .nil => by
    cases hcode
    exact allResolve_nil
  | .cons he hes => by
    obtain ⟨c, others, hc, hothers, rfl⟩ := exprsCode_cons hcode
    exact allResolve_append.mpr
      ⟨allResolve_exprCode hm hl hmax he hc, allResolve_exprsCode hm hl hmax hes hothers⟩

end

theorem resolves_printCode {t : FieldType} {i : Instruction} (hi : printCode (typeOf t) = .ok i) :
    i.Resolves m frame := by
  rcases printCode_typeOf hi with ⟨-, rfl⟩ | ⟨-, rfl⟩
  · trivial
  · trivial

theorem allResolve_printsCode (hm : Offers m G) (hl : Laid reserved slots L)
    (hmax : slots.maxLocals ≤ frame) {es : List Typed.Expr} {ts : List FieldType}
    (h : ExprTypes G L es ts) (hcode : printsCode m.name slots base es = .ok code) :
    AllResolve m frame code := by
  induction es generalizing ts base code with
  | nil =>
    cases hcode
    exact allResolve_nil
  | cons e es ih =>
    cases h with
    | cons he hes =>
      obtain ⟨c, print, others, hc, hprint, hothers, rfl⟩ := printsCode_cons hcode
      rw [he.ty_eq] at hprint
      simp only [allResolve_append, allResolve_cons]
      exact ⟨⟨trivial, allResolve_exprCode hm hl hmax he hc⟩, resolves_printCode hprint,
        ih hes hothers⟩

theorem bind_lt_frame {name : String} {slot : UInt16} (hb : slots.bind name = .ok (slot, slots'))
    (hmax : slots'.maxLocals ≤ frame) : slot < frame := by
  obtain ⟨rfl, -, hnext, hbound, -⟩ := Slots.bind_eq hb
  rw [UInt16.le_iff_toNat_le] at hmax hbound
  rw [UInt16.lt_iff_toNat_lt]
  omega

theorem allResolve_callCode (hm : Offers m G) (hl : Laid reserved slots L)
    (hmax : slots.maxLocals ≤ frame) {callee : Typed.Callee} {arguments : List Typed.Expr}
    (h : StmtType G L (.call callee arguments) L')
    (hcode : callCode m.name slots base callee arguments = .ok code) :
    AllResolve m frame code := by
  cases h with
  | call hf hes =>
    obtain ⟨c, hc, rfl⟩ := callCode_function hes.map_ty hcode
    simp only [allResolve_append, allResolve_cons, allResolve_nil, and_true]
    exact ⟨allResolve_exprsCode hm hl hmax hes hc, resolves_invoke hm hf⟩
  | print hes => exact allResolve_printsCode hm hl hmax hes hcode
  | println hes =>
    obtain ⟨c, hc, rfl⟩ := callCode_println hcode
    simp only [allResolve_append, allResolve_cons, allResolve_nil, and_true]
    exact ⟨allResolve_printsCode hm hl hmax hes hc, trivial, trivial⟩

end

mutual

theorem allResolve_stmtCode {m : Module} {G : Globals} {L L' : Locals} {reserved : List Kind}
    {slots slots' : Slots} {frame : UInt16} {base : Nat} {code : Code} (hm : Offers m G)
    (hl : Laid reserved slots L) {s : Typed.Stmt} (h : StmtType G L s L')
    (hcode : stmtCode m.name slots base s = .ok (code, slots'))
    (hmax : slots'.maxLocals ≤ frame) : AllResolve m frame code := by
  -- The frame is large enough in front of the statement because it is behind it.
  have hmax' : slots.maxLocals ≤ frame := Nat.le_trans (stmtCode_grows _ hcode).maxLocals hmax
  match h with
  | .assign hx he =>
    obtain ⟨c, store, hc, hstore, rfl, rfl⟩ := stmtCode_assign hcode
    rw [he.ty_eq] at hstore
    simp only [allResolve_append, allResolve_cons, allResolve_nil, and_true]
    exact ⟨allResolve_exprCode hm hl hmax he hc, resolves_assignCode hm hl hmax hx hstore⟩
  | .declare he =>
    obtain ⟨c, slot, store, hc, hb, hstore, rfl⟩ := stmtCode_declare hcode
    rw [he.ty_eq] at hstore
    simp only [allResolve_append, allResolve_cons, allResolve_nil, and_true]
    exact ⟨allResolve_exprCode hm hl hmax' he hc,
      resolves_storeCode (bind_lt_frame hb hmax) hstore⟩
  | .ifThen hg hy =>
    obtain ⟨g, y, inner, hgc, hyc, rfl, rfl⟩ := stmtCode_ifThen hcode
    rw [Slots.closeScope_maxLocals] at hmax
    exact allResolve_conditional (allResolve_exprCode hm hl hmax' hg hgc)
      (allResolve_stmtCode hm hl.openScope hy hyc hmax) allResolve_nil
  | .ifElse hg hy hn =>
    obtain ⟨g, y, n, inner, inner', hgc, hyc, hnc, rfl, rfl⟩ := stmtCode_ifElse hcode
    rw [Slots.closeScope_maxLocals] at hmax
    have hl' := hl.closeScope (stmtCode_grows _ hyc)
    have hle := (stmtCode_grows _ hnc).maxLocals_sibling
    exact allResolve_conditional (allResolve_exprCode hm hl hmax' hg hgc)
      (allResolve_stmtCode hm hl.openScope hy hyc (Nat.le_trans hle hmax))
      (allResolve_stmtCode hm hl'.openScope hn hnc hmax)
  | .whileDo hg hb =>
    obtain ⟨g, b, inner, hgc, hbc, rfl, rfl⟩ := stmtCode_whileDo hcode
    rw [Slots.closeScope_maxLocals] at hmax
    exact allResolve_loop (allResolve_exprCode hm hl hmax' hg hgc)
      (allResolve_stmtCode hm hl.openScope hb hbc hmax)
  | .block hb =>
    obtain ⟨inner, hbc, rfl⟩ := stmtCode_block hcode
    rw [Slots.closeScope_maxLocals] at hmax
    exact allResolve_stmtsCode hm hl.openScope hb hbc hmax
  | .call hf hes =>
    exact allResolve_callCode hm hl hmax' (.call hf hes) (stmtCode_call hcode).1
  | .print hes =>
    exact allResolve_callCode hm hl hmax' (.print hes) (stmtCode_call hcode).1
  | .println hes =>
    exact allResolve_callCode hm hl hmax' (.println hes) (stmtCode_call hcode).1
  | .empty =>
    cases hcode
    exact allResolve_nil

theorem allResolve_stmtsCode {m : Module} {G : Globals} {L L' : Locals} {reserved : List Kind}
    {slots slots' : Slots} {frame : UInt16} {base : Nat} {code : Code} (hm : Offers m G)
    (hl : Laid reserved slots L) {body : List Typed.Stmt} (h : StmtTypes G L body L')
    (hcode : stmtsCode m.name slots base body = .ok (code, slots'))
    (hmax : slots'.maxLocals ≤ frame) : AllResolve m frame code :=
  match h with
  | .nil => by
    cases hcode
    exact allResolve_nil
  | .cons hs hrest => by
    obtain ⟨c, between, others, hc, hothers, rfl⟩ := stmtsCode_cons hcode
    have hle := (stmtsCode_grows _ hothers).maxLocals
    exact allResolve_append.mpr ⟨allResolve_stmtCode hm hl hs hc (Nat.le_trans hle hmax),
      allResolve_stmtsCode hm (stmtCode_laid hl hs hc) hrest hothers hmax⟩

end

/-! ## Routines and modules -/

section
variable {m : Module} {G : Globals} {r : Routine}

theorem ends_returnCode {t : FieldType} {name : String} {i : Instruction}
    (hi : returnCode name (typeOf t) = .ok i) : i.Ends (some t) ∧ ∀ frame, i.Resolves m frame := by
  rcases returnCode_typeOf hi with ⟨rfl | rfl, rfl⟩ | ⟨rfl, rfl⟩
  · exact ⟨.int, fun _ => trivial⟩
  · exact ⟨.bool, fun _ => trivial⟩
  · exact ⟨.float, fun _ => trivial⟩

/-- The last part of a function resolves and ends with the return for the result. -/
theorem resultCode_ends {L : Locals} {reserved : List Kind} {slots : Slots} {frame : UInt16}
    {base : Nat} {name : String} {tail : Code} (hm : Offers m G) (hl : Laid reserved slots L)
    (hmax : slots.maxLocals ≤ frame) {result : Option Typed.Expr} {t : Option FieldType}
    (h : ResultType G L result t) (htail : resultCode m.name slots base name result = .ok tail) :
    ∃ code i, tail = code ++ [i] ∧ AllResolve m frame tail ∧ i.Ends t := by
  cases h with
  | none =>
    cases htail
    exact ⟨[], .ret, rfl, allResolve_cons.mpr ⟨trivial, allResolve_nil⟩, .void⟩
  | some he =>
    obtain ⟨c, i, hc, hi, rfl⟩ := resultCode_some htail
    rw [he.ty_eq] at hi
    obtain ⟨hends, hresolves⟩ := ends_returnCode hi
    refine ⟨c, i, rfl, ?_, hends⟩
    simp only [allResolve_append, allResolve_cons, allResolve_nil, and_true]
    exact ⟨allResolve_exprCode hm hl hmax he hc, hresolves frame⟩

theorem function_resolves (hm : Offers m G) {f : Typed.Function} {ts : List FieldType}
    {t : Option FieldType} (h : FunctionType G f ts t) (hr : functionRoutine m.name f = .ok r) :
    ∀ i ∈ r.code, i.Resolves m r.maxLocals := by
  obtain ⟨slots, body, slots', tail, hslots, hbody, htail, rfl⟩ := functionRoutine_eq h hr
  cases h with
  | @intro name stmts result t L parameters hstmts hresult =>
    simp only [List.map_map] at hslots
    have hlaid := parameters_laid hslots
    have hlaid' := stmtsCode_laid hlaid hstmts hbody
    have hcode := allResolve_stmtsCode hm hlaid hstmts hbody (Nat.le_refl _)
    obtain ⟨-, -, -, hresolves, -⟩ := resultCode_ends hm hlaid' (Nat.le_refl _) hresult htail
    intro i hi
    exact allResolve_append.mpr ⟨hcode, hresolves⟩ i (List.mem_toArray.mp hi)

theorem function_coherent (hm : Offers m G) {f : Typed.Function} {ts : List FieldType}
    {t : Option FieldType} (h : FunctionType G f ts t) (hr : functionRoutine m.name f = .ok r)
    (htargets : ∀ i ∈ r.code, ∀ t ∈ i.target?, t.toNat < r.code.size) : r.Coherent m := by
  have hresolves := function_resolves hm h hr
  obtain ⟨slots, body, slots', tail, hslots, hbody, htail, rfl⟩ := functionRoutine_eq h hr
  cases h with
  | @intro name stmts result t L parameters hstmts hresult =>
    simp only [List.map_map] at hslots
    have hlaid := parameters_laid hslots
    have hlaid' := stmtsCode_laid hlaid hstmts hbody
    obtain ⟨code, i, rfl, -, hends⟩ := resultCode_ends hm hlaid' (Nat.le_refl _) hresult htail
    refine ⟨hresolves, htargets, ?_, i, ?_, hends⟩
    · have hnext := hlaid.next_eq
      have hbound := UInt16.le_iff_toNat_le.mp hlaid.bound
      have hgrows := UInt16.le_iff_toNat_le.mp (stmtsCode_grows _ hbody).maxLocals
      simp only [length_slotKinds, parameterLocals, List.length_reverse, List.length_map,
        List.length_nil] at hnext ⊢
      omega
    · simp

theorem entry_resolves (hm : Offers m G) {statement : Typed.Stmt} {L : Locals}
    (h : StmtType G [] statement L) (hr : Lowering.entryRoutine m.name statement = .ok r) :
    ∀ i ∈ r.code, i.Resolves m r.maxLocals := by
  obtain ⟨code, slots, hcode, rfl⟩ := entryRoutine_eq hr
  have hstart : Laid [.unit] (Slots.start 1) [] := ⟨.nil, rfl, Nat.le_refl _⟩
  have hresolves := allResolve_stmtCode hm hstart h hcode (Nat.le_refl _)
  have hall : AllResolve m slots.maxLocals (code ++ [.ret]) :=
    allResolve_append.mpr ⟨hresolves, allResolve_cons.mpr ⟨trivial, allResolve_nil⟩⟩
  exact fun i hi => hall i (List.mem_toArray.mp hi)

theorem entry_coherent (hm : Offers m G) {statement : Typed.Stmt} {L : Locals}
    (h : StmtType G [] statement L) (hr : Lowering.entryRoutine m.name statement = .ok r)
    (htargets : ∀ i ∈ r.code, ∀ t ∈ i.target?, t.toNat < r.code.size) : r.Coherent m := by
  have hresolves := entry_resolves hm h hr
  obtain ⟨code, slots, hcode, rfl⟩ := entryRoutine_eq hr
  exact ⟨hresolves, htargets, Nat.zero_le _, .ret, by simp, .void⟩

theorem initializer_coherent : Lowering.initializer.Coherent m := by
  refine ⟨?_, ?_, Nat.le_refl _, .ret, rfl, .void⟩
  · simp [Lowering.initializer, Instruction.Resolves]
  · simp [Lowering.initializer, Instruction.target?]

end

/-- Whatever the code of a compiled module refers to is there, also when a function has the name of
the initializer. -/
theorem compile_resolves {p : Surface.Program} {name : String} {m : Module}
    (hcompile : Compiler.compile p name = .ok m) :
    m.name = name ∧ ∀ r ∈ m.routines, ∀ i ∈ r.code, i.Resolves m r.maxLocals := by
  obtain ⟨t, G, -, -, hp, hc⟩ := exists_compiled hcompile
  obtain rfl := compile_name hc
  have hm := offers_of_compiled hp hc
  refine ⟨rfl, fun r hr => ?_⟩
  rcases routine_cases hc hr with rfl | he | ⟨f, hf, hfr⟩
  · exact initializer_coherent.resolves
  · obtain ⟨L, hs⟩ := hp.statement
    exact entry_resolves hm hs he
  · obtain ⟨ts, t, htype⟩ := hp.declared hf
    exact function_resolves hm htype hfr

/-- Link integrity. An accepted program without a function named like the initializer has a module
of the given name in which all names are distinct and everything that is referred to is there. -/
theorem compile_coherent {p : Surface.Program} {name : String} {m : Module}
    (hcompile : Compiler.compile p name = .ok m) (hinit : ¬ DeclaresFunction p "<init>")
    (hsize : ∀ r ∈ m.routines, r.code.size < 2 ^ 32) : m.name = name ∧ m.Coherent := by
  obtain ⟨t, G, -, hl⟩ := exists_linked hcompile hinit hsize
  obtain rfl := hl.module_name
  have hm := offers_of_linked hl
  have hverified := verified_of_linked hl
  have htargets : ∀ r ∈ m.routines, ∀ i ∈ r.code, ∀ t ∈ i.target?, t.toNat < r.code.size := by
    intro r hr i hi t ht
    obtain ⟨shape, hshape⟩ := hverified.routines r hr
    exact target_lt_of_annotated hshape hi ht
  refine ⟨rfl, hverified.fields, nodup_routines hl.program hl.compiled hl.ne_init,
    hverified.initial, fun r hr => ?_⟩
  rcases routine_cases hl.compiled hr with rfl | he | ⟨f, hf, hfr⟩
  · exact initializer_coherent
  · obtain ⟨L, hs⟩ := hl.program.statement
    exact entry_coherent hm hs he (htargets r hr)
  · obtain ⟨ts, t, htype⟩ := hl.program.declared hf
    exact function_coherent hm htype hfr (htargets r hr)

/-- Has a constant and a variable among its global names, and a loop that is never entered. -/
def counting : Surface.Program where
  declarations :=
    [.global .readOnly ⟨"step", {}⟩ (.value (.int "3" {})),
      .global .readWrite ⟨"total", {}⟩ (.value (.int "0" {})),
      .function ⟨"next", {}⟩ [(⟨"x", {}⟩, .int)]
        [.declare .readOnly ⟨"y", {}⟩ (.binary .plus (.name ⟨"x", {}⟩) (.name ⟨"step", {}⟩))]
        (some (.int, .name ⟨"y", {}⟩)),
      .function ⟨"main", {}⟩ []
        [.whileDo (.literal (.bool false {}))
          (.assign ⟨"total", {}⟩ (.call ⟨"next", {}⟩ [.name ⟨"total", {}⟩] {}))]
        none]

def countingModule : Module where
  name := "demo"
  fields := [⟨"step", true, .int, .int 3⟩, ⟨"total", false, .int, .int 0⟩]
  routines :=
    [Lowering.initializer,
      ⟨"next", ⟨[.int], some .int⟩, 2, #[.iload 0, .getStatic ⟨"demo", "step", .int⟩, .iadd,
        .istore 1, .iload 1, .iret]⟩,
      ⟨"main", .void, 1, #[.iconst 0, .ifZero .eq 6, .getStatic ⟨"demo", "total", .int⟩,
        .invoke ⟨"demo", "next", ⟨[.int], some .int⟩⟩, .putStatic ⟨"demo", "total", .int⟩, .goto 0,
        .ret]⟩]

theorem compile_coherent_counting :
    Compiler.compile counting "demo" = .ok countingModule ∧ ¬ DeclaresFunction counting "<init>" ∧
      (∀ r ∈ countingModule.routines, r.code.size < 2 ^ 32) ∧ countingModule.Coherent := by
  have hcompile : Compiler.compile counting "demo" = .ok countingModule := by decide +kernel
  have hinit : ¬ DeclaresFunction counting "<init>" := by
    rintro ⟨i, parameters, body, result, hmem, hname⟩
    simp [counting] at hmem
    rcases hmem with h | h <;> simp [h.1] at hname
  exact ⟨hcompile, hinit, by decide, (compile_coherent hcompile hinit (by decide)).2⟩

end PZero.Linking
