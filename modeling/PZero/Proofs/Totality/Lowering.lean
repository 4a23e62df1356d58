import PZero.Proofs.Safety.Program
import PZero.Proofs.Totality.Obstacle

/-! # When lowering succeeds

A typed tree that follows the rules has code unless something in it is obstructed.
The types of the rules are storage types, so that every reference can be written
down, and a local name never holds a string, because its declaration would have
failed before.
-/
namespace PZero.Totality
open Bytecode Rules Lowering Safety Machine

def Succeeds {ε α : Type} (x : Except ε α) : Prop := ∃ a, x = .ok a

section
variable {ε α β : Type} {x : Except ε α} {f : α → Except ε β}

theorem succeeds_pure (a : α) : Succeeds (pure a : Except ε α) := ⟨a, rfl⟩

theorem succeeds_bind_iff : Succeeds (x >>= f) ↔ ∃ a, x = .ok a ∧ Succeeds (f a) := by
  simp only [Succeeds, bind_eq_ok]
  grind

/-- A step behind which nothing fails decides for the whole. -/
theorem succeeds_bind_of_forall (hf : ∀ a, x = .ok a → Succeeds (f a)) :
    Succeeds (x >>= f) ↔ Succeeds x := by
  rw [succeeds_bind_iff]
  exact ⟨fun ⟨a, ha, _⟩ => ⟨a, ha⟩, fun ⟨a, ha⟩ => ⟨a, ha, hf a ha⟩⟩

/-- Two steps are obstructed when one of them is. -/
theorem succeeds_bind_unless {P Q : Prop} (hx : Succeeds x ↔ ¬ P)
    (hf : ∀ a, x = .ok a → (Succeeds (f a) ↔ ¬ Q)) : Succeeds (x >>= f) ↔ ¬ (P ∨ Q) := by
  rw [succeeds_bind_iff, not_or, ← hx]
  constructor
  · rintro ⟨a, ha, h⟩
    exact ⟨⟨a, ha⟩, (hf a ha).mp h⟩
  · rintro ⟨⟨a, ha⟩, hq⟩
    exact ⟨a, ha, (hf a ha).mpr hq⟩

end

/-! ## Operators and names -/

theorem binaryCode_succeeds_iff {op : BinOp} {t result : FieldType} (h : BinaryType op t result)
    (base : Nat) :
    Succeeds (binaryCode base op (typeOf t)) ↔ ¬ (op.isEquality ∧ t = .string) := by
  cases h with
  | logical hop =>
    cases op <;> simp_all [BinOp.isBoolean, BinOp.isEquality, binaryCode, Succeeds]
  | arithmetic hop ht =>
    refine iff_of_true ?_ (by rcases ht with rfl | rfl <;> simp)
    rcases ht with rfl | rfl <;> cases op <;>
      simp only [BinOp.isArithmetic, Bool.false_eq_true] at hop <;> exact ⟨_, rfl⟩
  | relational hop ht =>
    rcases ht with rfl | rfl <;> cases op <;>
      simp_all [BinOp.isRelational, BinOp.isEquality, binaryCode, comparisonCode, typeOf, Succeeds]
  | equality hop =>
    cases t <;> cases op <;>
      simp_all [BinOp.isEquality, binaryCode, comparisonCode, typeOf, Succeeds]

theorem unaryCode_succeeds {op : UnOp} {t : FieldType} (h : UnaryType op t) (base : Nat) :
    Succeeds (unaryCode base op (typeOf t)) := by
  cases h with
  | not => exact ⟨_, rfl⟩
  | minus ht => rcases ht with rfl | rfl <;> exact ⟨_, rfl⟩
  | plus _ => exact ⟨_, rfl⟩

/-- No local name holds a string. -/
def Storable (L : Locals) : Prop := ∀ b ∈ L, b.2.2 ≠ .string

section
variable {G : Globals} {L L' : Locals} {reserved : List Kind} {slots slots' : Slots}
  {owner : String} {base : Nat}

/-- A name has a slot and no string in it, or else no slot. -/
theorem slot_cases (hl : Laid reserved slots L) (hs : Storable L) {name : String} {access : Access}
    {t : FieldType} (h : meaningOf G L name = some (.value access t)) :
    (∃ slot, slots.get? name = some slot ∧ t ≠ .string) ∨ slots.get? name = none := by
  rcases hl.value_cases h with ⟨slot, hslot, -, hlookup⟩ | ⟨hnone, -⟩
  · obtain ⟨before, after, rfl, -⟩ := List.lookup_eq_some_iff.mp hlookup
    exact .inl ⟨slot, hslot, hs (name, access, t) (by simp)⟩
  · exact .inr hnone

theorem nameCode_succeeds (hl : Laid reserved slots L) (hs : Storable L) {name : String}
    {access : Access} {t : FieldType} (h : meaningOf G L name = some (.value access t)) :
    Succeeds (nameCode owner slots (typeOf t) name) := by
  rcases slot_cases hl hs h with ⟨slot, hslot, ht⟩ | hnone
  · cases t with
    | string => exact absurd rfl ht
    | int | float | bool => simp [nameCode, hslot, typeOf, Succeeds]
  · simp only [nameCode, hnone, fieldRef_typeOf]
    exact ⟨_, rfl⟩

theorem typeOf_eq_string {t : FieldType} : typeOf t = .string ↔ t = .string := by
  cases t <;> simp [typeOf]

theorem storeCode_succeeds_iff (t : FieldType) (slot : UInt16) :
    Succeeds (storeCode (typeOf t) slot) ↔ ¬ t = .string := by
  cases t <;> simp [storeCode, typeOf, Succeeds]

theorem assignCode_succeeds (hl : Laid reserved slots L) (hs : Storable L) {name : String}
    {access : Access} {t : FieldType} (h : meaningOf G L name = some (.value access t)) :
    Succeeds (assignCode owner slots (typeOf t) name) := by
  rcases slot_cases hl hs h with ⟨slot, hslot, ht⟩ | hnone
  · simp only [assignCode, hslot]
    exact (storeCode_succeeds_iff t slot).mpr ht
  · simp only [assignCode, hnone, fieldRef_typeOf]
    exact ⟨_, rfl⟩

theorem routineRef_succeeds {name : String} {arguments : List Typed.Expr} {ts : List FieldType}
    (hes : ExprTypes G L arguments ts) (t : Option FieldType) :
    Succeeds (routineRef owner name (arguments.map (·.ty)) (t.map typeOf)) := by
  rw [hes.map_ty, routineRef_typeOf]
  exact ⟨_, rfl⟩

/-! ## Expressions -/

mutual

theorem exprCode_succeeds_iff (hl : Laid reserved slots L) (hs : Storable L) {e : Typed.Expr}
    {t : FieldType} (h : ExprType G L e t) (base : Nat) :
    Succeeds (exprCode owner slots base e) ↔ ¬ e.Obstructed :=
  match h with
  | .ternary hg hy hn => by
    rw [exprCode, Typed.Expr.obstructed_ternary]
    refine succeeds_bind_unless (exprCode_succeeds_iff hl hs hg base) fun g _ => ?_
    refine succeeds_bind_unless (exprCode_succeeds_iff hl hs hy _) fun y _ => ?_
    rw [succeeds_bind_of_forall fun _ _ => succeeds_pure _]
    exact exprCode_succeeds_iff hl hs hn _
  | .binary hleft hright ho => by
    rw [exprCode, Typed.Expr.obstructed_binary]
    refine succeeds_bind_unless (exprCode_succeeds_iff hl hs hleft base) fun l _ => ?_
    refine succeeds_bind_unless (exprCode_succeeds_iff hl hs hright _) fun r _ => ?_
    rw [succeeds_bind_of_forall fun _ _ => succeeds_pure _, hleft.ty_eq,
      binaryCode_succeeds_iff ho]
    simp [Typed.Expr.comparesStrings, hleft.ty_eq, hright.ty_eq, typeOf_eq_string]
  | .unary he ho => by
    rw [exprCode, Typed.Expr.obstructed_unary, succeeds_bind_of_forall]
    · exact exprCode_succeeds_iff hl hs he base
    · intro c _
      rw [succeeds_bind_of_forall fun _ _ => succeeds_pure _]
      exact unaryCode_succeeds ho _
  | .call _ hes => by
    rw [exprCode, Typed.Expr.obstructed_call, succeeds_bind_of_forall]
    · exact exprsCode_succeeds_iff hl hs hes base
    · intro c _
      rw [succeeds_bind_of_forall fun _ _ => succeeds_pure _]
      exact routineRef_succeeds hes (some _)
  | .name hx => by
    rw [exprCode, succeeds_bind_of_forall fun _ _ => succeeds_pure _]
    exact iff_of_true (nameCode_succeeds hl hs hx) Typed.Expr.not_obstructed_name
  | .literal => iff_of_true ⟨_, rfl⟩ Typed.Expr.not_obstructed_literal

theorem exprsCode_succeeds_iff (hl : Laid reserved slots L) (hs : Storable L)
    {es : List Typed.Expr} {ts : List FieldType} (h : ExprTypes G L es ts) (base : Nat) :
    Succeeds (exprsCode owner slots base es) ↔ ¬ ∃ e ∈ es, e.Obstructed :=
  match h with
  | .nil => iff_of_true ⟨_, rfl⟩ (by simp)
  | .cons he hes => by
    rw [exprsCode, List.exists_mem_cons_iff]
    refine succeeds_bind_unless (exprCode_succeeds_iff hl hs he base) fun c _ => ?_
    rw [succeeds_bind_of_forall fun _ _ => succeeds_pure _]
    exact exprsCode_succeeds_iff hl hs hes _

end

/-! ## Statements -/

theorem printsCode_succeeds_iff (hl : Laid reserved slots L) (hs : Storable L)
    {es : List Typed.Expr} {ts : List FieldType} (h : ExprTypes G L es ts) (base : Nat) :
    Succeeds (printsCode owner slots base es) ↔ ¬ ∃ e ∈ es, e.Obstructed := by
  induction es generalizing ts base with
  | nil => exact iff_of_true ⟨_, rfl⟩ (by simp)
  | cons e es ih =>
    cases h with
    | @cons _ t _ _ he hes =>
      rw [printsCode, List.exists_mem_cons_iff]
      refine succeeds_bind_unless (exprCode_succeeds_iff hl hs he _) fun c _ => ?_
      obtain ⟨print, hprint⟩ : Succeeds (printCode e.ty) := by
        rw [he.ty_eq]
        cases t <;> exact ⟨_, rfl⟩
      rw [hprint]
      exact (succeeds_bind_of_forall fun _ _ => succeeds_pure _).trans (ih hes _)

theorem println_succeeds_iff {es : List Typed.Expr} :
    Succeeds (callCode owner slots base .println es) ↔
      Succeeds (callCode owner slots base .print es) :=
  succeeds_bind_of_forall fun _ _ => succeeds_pure _

theorem stmtCode_storable (hs : Storable L) {s : Typed.Stmt} (h : StmtType G L s L')
    (hcode : Succeeds (stmtCode owner slots base s)) : Storable L' := by
  cases h with
  | @declare _ access name e t he =>
    obtain ⟨⟨code, slots'⟩, hcode⟩ := hcode
    obtain ⟨_, slot, store, _, _, hstore, _⟩ := stmtCode_declare hcode
    rw [he.ty_eq] at hstore
    intro b hb
    rcases List.mem_cons.mp hb with rfl | hb
    · exact (storeCode_succeeds_iff t slot).mp ⟨store, hstore⟩
    · exact hs b hb
  | assign | ifThen | ifElse | whileDo | block | call | print | println | empty => exact hs

theorem freeAfter_eq {s : Typed.Stmt} (h : StmtType G L s L') (first : Nat) :
    s.freeAfter (first + L.length) = first + L'.length := by
  cases h <;> rfl

theorem bind_succeeds_iff (hl : Laid reserved slots L) (name : String) :
    Succeeds (slots.bind name) ↔ ¬ reserved.length + L.length = 65535 := by
  have hnext : slots.next = 65535 ↔ reserved.length + L.length = 65535 := by
    rw [← UInt16.toNat_inj, hl.next_eq, length_slotKinds]
    rfl
  unfold Slots.bind
  split <;> simp_all [Succeeds]

mutual

theorem stmtCode_succeeds_iff {G : Globals} {L L' : Locals} {reserved : List Kind} {slots : Slots}
    {owner : String} (hl : Laid reserved slots L) (hs : Storable L) {s : Typed.Stmt}
    (h : StmtType G L s L') (base : Nat) :
    Succeeds (stmtCode owner slots base s) ↔ ¬ s.Obstructed (reserved.length + L.length) :=
  match h with
  | .assign hx he => by
    rw [stmtCode, Typed.Stmt.obstructed_assign, succeeds_bind_of_forall]
    · exact exprCode_succeeds_iff hl hs he base
    · intro c _
      rw [he.ty_eq, succeeds_bind_of_forall fun _ _ => succeeds_pure _]
      exact assignCode_succeeds hl hs hx
  | .declare he => by
    rw [stmtCode, Typed.Stmt.obstructed_declare, he.ty_eq, typeOf_eq_string]
    refine succeeds_bind_unless (exprCode_succeeds_iff hl hs he base) fun c _ => ?_
    refine succeeds_bind_unless (bind_succeeds_iff hl _) fun bound _ => ?_
    exact (succeeds_bind_of_forall fun _ _ => succeeds_pure _).trans (storeCode_succeeds_iff _ _)
  | .ifThen hg hy => by
    rw [stmtCode, Typed.Stmt.obstructed_ifThen]
    refine succeeds_bind_unless (exprCode_succeeds_iff hl hs hg base) fun g _ => ?_
    rw [succeeds_bind_of_forall fun _ _ => succeeds_pure _]
    exact stmtCode_succeeds_iff hl.openScope hs hy _
  | .ifElse hg hy hn => by
    rw [stmtCode, Typed.Stmt.obstructed_ifElse]
    refine succeeds_bind_unless (exprCode_succeeds_iff hl hs hg base) fun g _ => ?_
    refine succeeds_bind_unless (stmtCode_succeeds_iff hl.openScope hs hy _) fun y hyc => ?_
    have hl' := hl.closeScope (stmtCode_grows _ hyc)
    refine (succeeds_bind_of_forall fun _ _ => succeeds_pure _).trans ?_
    exact stmtCode_succeeds_iff hl'.openScope hs hn _
  | .whileDo hg hb => by
    rw [stmtCode, Typed.Stmt.obstructed_whileDo]
    refine succeeds_bind_unless (exprCode_succeeds_iff hl hs hg base) fun g _ => ?_
    rw [succeeds_bind_of_forall fun _ _ => succeeds_pure _]
    exact stmtCode_succeeds_iff hl.openScope hs hb _
  | .block hb => by
    rw [stmtCode, Typed.Stmt.obstructed_block, succeeds_bind_of_forall fun _ _ => succeeds_pure _]
    exact stmtsCode_succeeds_iff hl.openScope hs hb base
  | .call _ hes => by
    rw [stmtCode, Typed.Stmt.obstructed_call, succeeds_bind_of_forall fun _ _ => succeeds_pure _,
      callCode, succeeds_bind_of_forall]
    · exact exprsCode_succeeds_iff hl hs hes base
    · intro c _
      rw [succeeds_bind_of_forall fun _ _ => succeeds_pure _]
      exact routineRef_succeeds hes none
  | .print hes => by
    rw [stmtCode, Typed.Stmt.obstructed_call, succeeds_bind_of_forall fun _ _ => succeeds_pure _]
    exact printsCode_succeeds_iff hl hs hes base
  | .println hes => by
    rw [stmtCode, Typed.Stmt.obstructed_call, succeeds_bind_of_forall fun _ _ => succeeds_pure _,
      println_succeeds_iff]
    exact printsCode_succeeds_iff hl hs hes base
  | .empty => iff_of_true ⟨_, rfl⟩ Typed.Stmt.not_obstructed_empty

theorem stmtsCode_succeeds_iff {G : Globals} {L L' : Locals} {reserved : List Kind}
    {slots : Slots} {owner : String} (hl : Laid reserved slots L) (hs : Storable L)
    {body : List Typed.Stmt} (h : StmtTypes G L body L') (base : Nat) :
    Succeeds (stmtsCode owner slots base body) ↔
      ¬ Typed.AllObstructed (reserved.length + L.length) body :=
  match h with
  | .nil => iff_of_true ⟨_, rfl⟩ Typed.not_allObstructed_nil
  | .cons hfirst hrest => by
    rw [stmtsCode, Typed.allObstructed_cons, freeAfter_eq hfirst]
    refine succeeds_bind_unless (stmtCode_succeeds_iff hl hs hfirst base) fun first hc => ?_
    have hl' := stmtCode_laid hl hfirst hc
    have hs' := stmtCode_storable hs hfirst ⟨_, hc⟩
    refine (succeeds_bind_of_forall fun _ _ => succeeds_pure _).trans ?_
    exact stmtsCode_succeeds_iff hl' hs' hrest _

end

end

end PZero.Totality
