import PZero.Proofs.Lowering.Code
import PZero.Proofs.Lowering.Place
import PZero.Proofs.Safety.Region

/-! # Code of expressions can be annotated

The code of an expression is a region that puts one value of its kind on the stack
and knows the slots of the local names in scope. The slot of a name is the number
of names declared before it, behind the slots that are reserved.
-/
namespace PZero.Safety
open Bytecode Machine Rules Lowering

/-! ## Local names -/

/-- The kinds of the reserved slots and those of the local names, the innermost last. -/
def slotKinds (reserved : List Kind) (L : Locals) : List Kind :=
  reserved ++ (L.map fun b => Kind.ofFieldType b.2.2).reverse

@[simp] theorem length_slotKinds (reserved : List Kind) (L : Locals) :
    (slotKinds reserved L).length = reserved.length + L.length := by
  simp [slotKinds]

theorem slotKinds_cons (reserved : List Kind) (L : Locals) (x : String) (access : Access)
    (t : FieldType) :
    slotKinds reserved ((x, access, t) :: L) = slotKinds reserved L ++ [Kind.ofFieldType t] := by
  simp [slotKinds]

theorem slotKinds_extends (reserved : List Kind) (added L : Locals) :
    slotKinds reserved L <+: slotKinds reserved (added ++ L) := by
  refine ⟨(added.map fun b => Kind.ofFieldType b.2.2).reverse, ?_⟩
  simp [slotKinds]

/-- Each local name has its slot. -/
inductive Numbered (first : Nat) : List (String × UInt16) → Locals → Prop
  | nil : Numbered first [] []
  | cons {names L x access t slot} : Numbered first names L → slot.toNat = first + L.length →
      Numbered first ((x, slot) :: names) ((x, access, t) :: L)

theorem Numbered.length_eq {first : Nat} {names : List (String × UInt16)} {L : Locals}
    (h : Numbered first names L) : names.length = L.length := by
  induction h with
  | nil => rfl
  | cons _ _ ih => exact congrArg (· + 1) ih

theorem Numbered.lookup_none {first : Nat} {names : List (String × UInt16)} {L : Locals}
    (h : Numbered first names L) {x : String} (hx : L.lookup x = none) :
    names.lookup x = none := by
  induction h with
  | nil => rfl
  | @cons names L y access t slot _ _ ih =>
    rw [lookup_cons_ite] at hx ⊢
    by_cases hxy : x = y
    · rw [if_pos hxy] at hx
      cases hx
    · rw [if_neg hxy] at hx ⊢
      exact ih hx

theorem Numbered.lookup_some {reserved : List Kind} {names : List (String × UInt16)} {L : Locals}
    (h : Numbered reserved.length names L) {x : String} {access : Access} {t : FieldType}
    (hx : L.lookup x = some (access, t)) :
    ∃ slot, names.lookup x = some slot ∧
      (slotKinds reserved L)[slot.toNat]? = some (Kind.ofFieldType t) := by
  induction h with
  | nil => cases hx
  | @cons names L y access' t' slot _ hslot ih =>
    rw [lookup_cons_ite] at hx ⊢
    rw [slotKinds_cons]
    by_cases hxy : x = y
    · rw [if_pos hxy] at hx ⊢
      cases hx
      refine ⟨slot, rfl, ?_⟩
      rw [hslot, ← length_slotKinds reserved L, List.getElem?_concat_length]
    · rw [if_neg hxy] at hx ⊢
      obtain ⟨found, hfound, hkind⟩ := ih hx
      have hlt : found.toNat < (slotKinds reserved L).length :=
        (List.getElem?_eq_some_iff.mp hkind).1
      exact ⟨found, hfound, by rw [List.getElem?_append_left hlt, hkind]⟩

/-- The slots are laid out for the local names. -/
structure Laid (reserved : List Kind) (slots : Slots) (L : Locals) : Prop where
  names : Numbered reserved.length slots.names.bindings L
  next : slots.Counts reserved.length
  bound : slots.next ≤ slots.maxLocals

namespace Laid
variable {reserved : List Kind} {slots slots' inner : Slots} {L : Locals} {x : String}
  {access : Access} {t : FieldType} {slot : UInt16}

theorem next_eq (h : Laid reserved slots L) :
    slots.next.toNat = (slotKinds reserved L).length := by
  rw [length_slotKinds, ← h.names.length_eq]
  exact h.next

theorem lookup_none (h : Laid reserved slots L) (hx : L.lookup x = none) :
    slots.get? x = none := by
  rw [Slots.get?, Scope.get?_eq_lookup]
  exact h.names.lookup_none hx

theorem lookup_some (h : Laid reserved slots L) (hx : L.lookup x = some (access, t)) :
    ∃ slot, slots.get? x = some slot ∧
      (slotKinds reserved L)[slot.toNat]? = some (Kind.ofFieldType t) ∧
      slot.toNat < slots.maxLocals.toNat := by
  obtain ⟨slot, hslot, hkind⟩ := h.names.lookup_some hx
  have hlt : slot.toNat < (slotKinds reserved L).length := (List.getElem?_eq_some_iff.mp hkind).1
  refine ⟨slot, by rw [Slots.get?, Scope.get?_eq_lookup, hslot], hkind, ?_⟩
  rw [← h.next_eq] at hlt
  exact Nat.lt_of_lt_of_le hlt (UInt16.le_iff_toNat_le.mp h.bound)

/-- A name of a value has a slot of the frame, or else it is global. -/
theorem value_cases (h : Laid reserved slots L) {G : Globals}
    (hx : meaningOf G L x = some (.value access t)) :
    (∃ slot, slots.get? x = some slot ∧ slot.toNat < slots.maxLocals.toNat ∧
      L.lookup x = some (access, t)) ∨
      slots.get? x = none ∧ G.lookup x = some (.value access t) := by
  unfold meaningOf at hx
  cases hlookup : L.lookup x with
  | some binding =>
    rw [hlookup] at hx
    cases hx
    obtain ⟨slot, hslot, -, hlt⟩ := h.lookup_some hlookup
    exact .inl ⟨slot, hslot, hlt, rfl⟩
  | none =>
    rw [hlookup] at hx
    exact .inr ⟨h.lookup_none hlookup, hx⟩

theorem openScope (h : Laid reserved slots L) : Laid reserved slots.openScope L :=
  ⟨by rw [Slots.bindings_openScope]; exact h.names, h.next.openScope, h.bound⟩

theorem closeScope (h : Laid reserved slots L) (hg : slots.openScope.Grows inner) :
    Laid reserved inner.closeScope L := by
  rw [hg.closeScope_eq]
  exact ⟨h.names, h.next, Nat.le_trans h.bound hg.maxLocals⟩

theorem bind (h : Laid reserved slots L) (hb : slots.bind x = .ok (slot, slots')) :
    Laid reserved slots' ((x, access, t) :: L) := by
  obtain ⟨-, hnames, -, hbound, hgrows⟩ := Slots.bind_eq hb
  refine ⟨?_, h.next.grows hgrows, hbound⟩
  rw [hnames]
  refine .cons h.names ?_
  rw [h.next_eq, length_slotKinds]

end Laid

/-! ## Operators -/

section
variable {m : Module} {r : Routine} {base : Nat} {stack ks : List Kind} {code : Code}

/-- An instruction replaces its operands by its results. -/
theorem fits_operands {i : Instruction} (h : Allowed m r ⟨i.operands ++ stack, ks⟩ i) :
    Fits m r i ⟨i.operands ++ stack, ks⟩ ⟨i.results ++ stack, i.slotsBehind ks⟩ :=
  ⟨h, ⟨stack, rfl, rfl⟩, rfl⟩

theorem verdict_region (hsize : r.code.size < 2 ^ 32) {jump : UInt32 → Instruction} {s : Shape}
    (hat : CodeAt r base (verdict base jump)) (hfits : ∀ tgt, Fits m r (jump tgt) s ⟨stack, ks⟩)
    (hsucc : ∀ tgt, (jump tgt).successors base = [base + 1, tgt.toNat]) :
    Region m r base (base + 4) s ⟨.int :: stack, ks⟩ := by
  obtain ⟨hjump, hzero, hgoto, hone, hle⟩ := hat.verdict
  have hpush : ∀ v, Fits m r (.iconst v) ⟨stack, ks⟩ ⟨.int :: stack, ks⟩ :=
    fun v => fits_operands trivial
  refine .fork hjump (hfits _) ?_ (.single hzero (hpush 0) rfl) hgoto (target_toNat (by omega))
    (.single hone (hpush 1) rfl)
  rw [hsucc, target_toNat (by omega)]

theorem comparison_region (hsize : r.code.size < 2 ^ 32) {op : BinOp} {t : FieldType}
    (h : comparisonCode base op (typeOf t) = .ok code) (hat : CodeAt r base code) :
    Region m r base (base + code.length)
      ⟨Kind.ofFieldType t :: Kind.ofFieldType t :: stack, ks⟩ ⟨.int :: stack, ks⟩ := by
  cases t with
  | int =>
    cases h
    exact verdict_region hsize hat (fun _ => fits_operands trivial) fun _ => rfl
  | float =>
    cases h
    have hcompare : Fits m r .fcmpg ⟨.float :: .float :: stack, ks⟩ ⟨.int :: stack, ks⟩ :=
      fits_operands trivial
    refine (Region.single hat.head hcompare rfl).append ?_
    exact verdict_region hsize hat.tail (fun _ => fits_operands trivial) fun _ => rfl
  | bool =>
    have hxor : Fits m r .ixor ⟨.int :: .int :: stack, ks⟩ ⟨.int :: stack, ks⟩ :=
      fits_operands trivial
    have hone : Fits m r (.iconst 1) ⟨.int :: stack, ks⟩ ⟨.int :: .int :: stack, ks⟩ :=
      fits_operands trivial
    cases op with
    | equal =>
      cases h
      exact (Region.single hat.head hxor rfl).append
        ((Region.single hat.tail.head hone rfl).append (.single hat.tail.tail.head hxor rfl))
    | notEqual =>
      cases h
      exact .single hat.head hxor rfl
    | _ => cases h
  | string => cases op <;> cases h

/-- Both operands are replaced by the result. -/
theorem binary_region (hsize : r.code.size < 2 ^ 32) {op : BinOp} {t result : FieldType}
    (ho : BinaryType op t result) (h : binaryCode base op (typeOf t) = .ok code)
    (hat : CodeAt r base code) :
    Region m r base (base + code.length)
      ⟨Kind.ofFieldType t :: Kind.ofFieldType t :: stack, ks⟩
      ⟨Kind.ofFieldType result :: stack, ks⟩ := by
  cases ho with
  | logical ho =>
    cases op <;> cases ho <;> cases h <;> exact .single hat.head (fits_operands trivial) rfl
  | arithmetic ho ht =>
    rcases ht with rfl | rfl <;> cases op <;> cases ho <;> cases h <;>
      exact .single hat.head (fits_operands trivial) rfl
  | relational ho _ =>
    cases op <;> cases ho <;> exact comparison_region hsize h hat
  | equality ho =>
    cases op <;> cases ho <;> exact comparison_region hsize h hat

theorem unary_region (hsize : r.code.size < 2 ^ 32) {op : UnOp} {t : FieldType}
    (ho : UnaryType op t) (h : unaryCode base op (typeOf t) = .ok code) (hat : CodeAt r base code) :
    Region m r base (base + code.length) ⟨Kind.ofFieldType t :: stack, ks⟩
      ⟨Kind.ofFieldType t :: stack, ks⟩ := by
  cases ho with
  | not =>
    cases h
    exact verdict_region hsize hat (fun _ => fits_operands trivial) fun _ => rfl
  | minus ht =>
    rcases ht with rfl | rfl <;> cases h <;>
      exact .single hat.head (fits_operands trivial) rfl
  | plus =>
    cases h
    exact .nil (.refl _)

end

/-! ## Branches -/

section
variable {m : Module} {r : Routine} {base : Nat} {stack ks : List Kind} {s : Shape}

theorem conditional_region (hsize : r.code.size < 2 ^ 32) {guard yes no : Code}
    (hat : CodeAt r base (conditional base guard yes no))
    (hguard : Region m r base (base + guard.length) ⟨stack, ks⟩ ⟨.int :: stack, ks⟩)
    (hyes : Region m r (yesStart base guard) (yesStart base guard + yes.length) ⟨stack, ks⟩ s)
    (hno : Region m r (noStart base guard yes) (noStart base guard yes + no.length)
      ⟨stack, ks⟩ s) :
    Region m r base (base + (conditional base guard yes no).length) ⟨stack, ks⟩ s := by
  obtain ⟨-, hjump, -, hgoto, -, hend⟩ := hat.conditional
  have hle := hat.le_size
  rw [hend] at hle ⊢
  refine hguard.append (.fork hjump (fits_operands trivial) ?_ hyes hgoto ?_ hno)
  · rw [Instruction.successors_ifZero, target_toNat (by omega)]
    rfl
  · exact target_toNat (by omega)

theorem loop_region (hsize : r.code.size < 2 ^ 32) {guard body : Code}
    (hat : CodeAt r base (loop base guard body))
    (hguard : Region m r base (base + guard.length) ⟨stack, ks⟩ ⟨.int :: stack, ks⟩)
    (hbody : Region m r (yesStart base guard) (yesStart base guard + body.length)
      ⟨stack, ks⟩ ⟨stack, ks⟩) :
    Region m r base (base + (loop base guard body).length) ⟨stack, ks⟩ ⟨stack, ks⟩ := by
  obtain ⟨-, hjump, -, hgoto, hend⟩ := hat.loop
  have hle := hat.le_size
  rw [hend] at hle ⊢
  refine .loop hguard hjump (target_toNat (by omega)) hbody hgoto (target_toNat ?_)
  rw [yesStart] at hle
  omega

end

/-! ## Expressions -/

/-- The module has a field or a routine for each global name. -/
structure Provides (m : Module) (G : Globals) : Prop where
  value : ∀ {name access t}, G.lookup name = some (.value access t) →
    ∃ field ∈ m.fields, field.name = name ∧ field.type = t
  function : ∀ {name parameters result}, G.lookup name = some (.function parameters result) →
    ∃ callee, routine? m name = some callee ∧ callee.descriptor = ⟨parameters, result⟩

section
variable {m : Module} {r : Routine} {G : Globals} {reserved : List Kind} {slots : Slots}
  {L : Locals}

theorem name_region (hm : Provides m G) (hl : Laid reserved slots L) {name : String}
    {access : Access} {t : FieldType} (h : meaningOf G L name = some (.value access t)) {base : Nat}
    {i : Instruction} (hi : nameCode m.name slots (typeOf t) name = .ok i)
    (hat : CodeAt r base [i]) (stack : List Kind) :
    Region m r base (base + 1) ⟨stack, slotKinds reserved L⟩
      ⟨Kind.ofFieldType t :: stack, slotKinds reserved L⟩ := by
  unfold meaningOf at h
  cases hx : L.lookup name with
  | some binding =>
    obtain ⟨access', t'⟩ := binding
    rw [hx] at h
    cases h
    obtain ⟨slot, hslot, hkind, -⟩ := hl.lookup_some hx
    rcases nameCode_local hslot hi with ⟨rfl | rfl, rfl⟩ | ⟨rfl, rfl⟩
    · exact .single hat.head (fits_operands hkind) rfl
    · exact .single hat.head (fits_operands hkind) rfl
    · exact .single hat.head (fits_operands hkind) rfl
  | none =>
    rw [hx] at h
    obtain rfl := nameCode_global (hl.lookup_none hx) hi
    exact .single hat.head (fits_operands ⟨rfl, hm.value h⟩) rfl

/-- A call replaces the arguments by the result. -/
theorem invoke_region (hm : Provides m G) {name : String} {parameters : List FieldType}
    {result : Option FieldType} (h : meaningOf G L name = some (.function parameters result))
    {base : Nat} (hat : CodeAt r base [.invoke ⟨m.name, name, ⟨parameters, result⟩⟩])
    (stack ks : List Kind) :
    Region m r base (base + 1) ⟨(parameters.map Kind.ofFieldType).reverse ++ stack, ks⟩
      ⟨(result.map Kind.ofFieldType).toList ++ stack, ks⟩ :=
  .single hat.head (fits_operands ⟨rfl, hm.function (meaningOf_eq_function h)⟩) rfl

mutual

theorem expr_region (hm : Provides m G) (hsize : r.code.size < 2 ^ 32) (hl : Laid reserved slots L)
    {e : Typed.Expr} {t : FieldType} (h : ExprType G L e t) {base : Nat} {code : Code}
    (hcode : exprCode m.name slots base e = .ok code) (hat : CodeAt r base code)
    (stack : List Kind) :
    Region m r base (base + code.length) ⟨stack, slotKinds reserved L⟩
      ⟨Kind.ofFieldType t :: stack, slotKinds reserved L⟩ :=
  match h with
  | .ternary hg hy hn => by
    obtain ⟨g, y, n, hgc, hyc, hnc, rfl⟩ := exprCode_ternary hcode
    obtain ⟨hgat, -, hyat, -, hnat, -⟩ := hat.conditional
    exact conditional_region hsize hat (expr_region hm hsize hl hg hgc hgat stack)
      (expr_region hm hsize hl hy hyc hyat stack) (expr_region hm hsize hl hn hnc hnat stack)
  | .binary hleft hright ho => by
    obtain ⟨a, b, combine, hac, hbc, hcombine, rfl⟩ := exprCode_binary hcode
    rw [hleft.ty_eq] at hcombine
    have hat' := hat.right
    simp only [List.length_append, ← Nat.add_assoc] at hat' ⊢
    refine (expr_region hm hsize hl hleft hac hat.left.left stack).append ?_
    refine (expr_region hm hsize hl hright hbc hat.left.right _).append ?_
    exact binary_region hsize ho hcombine hat'
  | .unary he ho => by
    obtain ⟨c, apply, hc, happly, rfl⟩ := exprCode_unary hcode
    rw [List.length_append, ← Nat.add_assoc]
    exact (expr_region hm hsize hl he hc hat.left stack).append
      (unary_region hsize ho happly hat.right)
  | .call hf hes => by
    obtain ⟨c, hc, rfl⟩ := exprCode_call hes.map_ty hcode
    rw [List.length_append, ← Nat.add_assoc]
    exact (exprs_region hm hsize hl hes hc hat.left stack).append
      (invoke_region hm hf hat.right stack _)
  | .name hx => by
    obtain ⟨i, hi, rfl⟩ := exprCode_name hcode
    exact name_region hm hl hx hi hat stack
  | @ExprType.literal _ _ v => by
    cases hcode
    cases v <;> exact .single hat.head (fits_operands trivial) rfl

theorem exprs_region (hm : Provides m G) (hsize : r.code.size < 2 ^ 32) (hl : Laid reserved slots L)
    {es : List Typed.Expr} {ts : List FieldType} (h : ExprTypes G L es ts) {base : Nat}
    {code : Code} (hcode : exprsCode m.name slots base es = .ok code) (hat : CodeAt r base code)
    (stack : List Kind) :
    Region m r base (base + code.length) ⟨stack, slotKinds reserved L⟩
      ⟨(ts.map Kind.ofFieldType).reverse ++ stack, slotKinds reserved L⟩ :=
  match h with
  | .nil => by
    cases hcode
    exact .nil (.refl _)
  | .cons he hes => by
    obtain ⟨c, others, hc, hothers, rfl⟩ := exprsCode_cons hcode
    rw [List.length_append, ← Nat.add_assoc, List.map_cons, List.reverse_cons, List.append_assoc]
    exact (expr_region hm hsize hl he hc hat.left stack).append
      (exprs_region hm hsize hl hes hothers hat.right _)

end

end

end PZero.Safety
