import PZero.Proofs.Safety.Expr

/-! # Code of statements can be annotated

The code of a statement is a region that leaves the stack as it was. A declaration
adds a slot of its kind; behind a scope the slots declared in it are forgotten, so
that the branches of a conditional agree and a loop can begin again.
-/
namespace PZero.Safety
open Bytecode Machine Rules Lowering

section
variable {m : Module} {r : Routine} {G : Globals} {reserved : List Kind}
  {slots slots' : Slots} {L L' : Locals} {base : Nat} {code : Code} {stack : List Kind}

/-! ## Storing and printing -/

theorem store_region {t : FieldType} {slot : UInt16} {i : Instruction} {ks : List Kind}
    (hi : storeCode (typeOf t) slot = .ok i) (hat : CodeAt r base [i])
    (hslot : slot.toNat ≤ ks.length) (hmax : slot.toNat < r.maxLocals.toNat) :
    Region m r base (base + 1) ⟨Kind.ofFieldType t :: stack, ks⟩
      ⟨stack, ks.take slot.toNat ++ Kind.ofFieldType t :: ks.drop (slot.toNat + 1)⟩ := by
  rcases storeCode_typeOf hi with ⟨rfl | rfl, rfl⟩ | ⟨rfl, rfl⟩
  · exact .single hat.head (fits_operands ⟨hslot, hmax⟩) rfl
  · exact .single hat.head (fits_operands ⟨hslot, hmax⟩) rfl
  · exact .single hat.head (fits_operands ⟨hslot, hmax⟩) rfl

/-- A value of the same kind leaves the kinds of the slots alone. -/
theorem take_cons_drop {ks : List Kind} {n : Nat} {k : Kind} (h : ks[n]? = some k) :
    ks.take n ++ k :: ks.drop (n + 1) = ks := by
  obtain ⟨hlt, rfl⟩ := List.getElem?_eq_some_iff.mp h
  rw [List.getElem_cons_drop hlt, List.take_append_drop]

theorem assign_region (hm : Provides m G) (hl : Laid reserved slots L)
    (hmax : slots.maxLocals ≤ r.maxLocals) {name : String} {access : Access} {t : FieldType}
    (h : meaningOf G L name = some (.value access t)) {i : Instruction}
    (hi : assignCode m.name slots (typeOf t) name = .ok i) (hat : CodeAt r base [i]) :
    Region m r base (base + 1) ⟨Kind.ofFieldType t :: stack, slotKinds reserved L⟩
      ⟨stack, slotKinds reserved L⟩ := by
  unfold meaningOf at h
  cases hx : L.lookup name with
  | some binding =>
    obtain ⟨access', t'⟩ := binding
    rw [hx] at h
    cases h
    obtain ⟨slot, hslot, hkind, hbound⟩ := hl.lookup_some hx
    have hlt : slot.toNat < (slotKinds reserved L).length :=
      (List.getElem?_eq_some_iff.mp hkind).1
    rw [assignCode, hslot] at hi
    have hstore := @store_region m r base stack t slot i _ hi hat (Nat.le_of_lt hlt)
      (Nat.lt_of_lt_of_le hbound (UInt16.le_iff_toNat_le.mp hmax))
    rwa [take_cons_drop hkind] at hstore
  | none =>
    rw [hx] at h
    obtain rfl := assignCode_global (hl.lookup_none hx) hi
    exact .single hat.head (fits_operands ⟨rfl, hm.value h⟩) rfl

theorem declare_region (hl : Laid reserved slots L) {name : String} {slot : UInt16}
    (hb : slots.bind name = .ok (slot, slots')) (hmax : slots'.maxLocals ≤ r.maxLocals)
    {t : FieldType} {i : Instruction} (hi : storeCode (typeOf t) slot = .ok i)
    (hat : CodeAt r base [i]) (access : Access) :
    Region m r base (base + 1) ⟨Kind.ofFieldType t :: stack, slotKinds reserved L⟩
      ⟨stack, slotKinds reserved ((name, access, t) :: L)⟩ := by
  obtain ⟨rfl, -, hnext, hbound, -⟩ := Slots.bind_eq hb
  have hslot := hl.next_eq
  have hle : slots'.next.toNat ≤ r.maxLocals.toNat :=
    Nat.le_trans (UInt16.le_iff_toNat_le.mp hbound) (UInt16.le_iff_toNat_le.mp hmax)
  have hstore := @store_region m r base stack t _ i _ hi hat (Nat.le_of_eq hslot) (by omega)
  rwa [hslot, List.take_length, List.drop_of_length_le (Nat.le_succ _), ← slotKinds_cons] at hstore

theorem print_fits_kind {t : FieldType} {i : Instruction} (hi : printCode (typeOf t) = .ok i)
    (ks : List Kind) (pc : Nat) :
    Fits m r i ⟨Kind.ofFieldType t :: .stream :: stack, ks⟩ ⟨stack, ks⟩ ∧
      i.successors pc = [pc + 1] := by
  rcases printCode_typeOf hi with ⟨rfl, rfl⟩ | ⟨-, rfl⟩
  · exact ⟨fits_operands trivial, rfl⟩
  · exact ⟨fits_operands trivial, rfl⟩

theorem prints_region (hm : Provides m G) (hsize : r.code.size < 2 ^ 32)
    (hl : Laid reserved slots L) {es : List Typed.Expr} {ts : List FieldType}
    (h : ExprTypes G L es ts) (hcode : printsCode m.name slots base es = .ok code)
    (hat : CodeAt r base code) :
    Region m r base (base + code.length) ⟨stack, slotKinds reserved L⟩
      ⟨stack, slotKinds reserved L⟩ := by
  induction es generalizing base code ts with
  | nil =>
    cases hcode
    exact .nil (.refl _)
  | cons e es ih =>
    obtain ⟨c, print, others, hc, hprint, hothers, rfl⟩ := printsCode_cons hcode
    cases h with
    | cons he hes =>
      rw [he.ty_eq] at hprint
      obtain ⟨hstream, hargument, hi, hrest, hend⟩ := hat.printed
      obtain ⟨hfits, hsucc⟩ := print_fits_kind hprint (slotKinds reserved L) (base + 1 + c.length)
      rw [hend]
      refine (Region.single hstream (fits_operands trivial) rfl).append ?_
      refine (expr_region hm hsize hl he hc hargument _).append ?_
      exact (Region.single hi hfits hsucc).append (ih hes hothers hrest)

/-! ## Statements -/

/-- A region of a scope forgets the slots declared in it. -/
theorem scope_region {lo hi : Nat} {s : Shape} (hL : ∃ added, L' = added ++ L)
    (h : Region m r lo hi s ⟨stack, slotKinds reserved L'⟩) :
    Region m r lo hi s ⟨stack, slotKinds reserved L⟩ := by
  obtain ⟨added, rfl⟩ := hL
  exact h.narrow ⟨rfl, slotKinds_extends reserved added L⟩

theorem call_region (hm : Provides m G) (hsize : r.code.size < 2 ^ 32)
    (hl : Laid reserved slots L) {callee : Typed.Callee} {arguments : List Typed.Expr}
    (h : StmtType G L (.call callee arguments) L)
    (hcode : callCode m.name slots base callee arguments = .ok code) (hat : CodeAt r base code) :
    Region m r base (base + code.length) ⟨stack, slotKinds reserved L⟩
      ⟨stack, slotKinds reserved L⟩ := by
  cases h with
  | call hf hes =>
    obtain ⟨c, hc, rfl⟩ := callCode_function hes.map_ty hcode
    rw [List.length_append, ← Nat.add_assoc]
    exact (exprs_region hm hsize hl hes hc hat.left stack).append
      (invoke_region hm hf hat.right stack _)
  | print hes => exact prints_region hm hsize hl hes hcode hat
  | println hes =>
    obtain ⟨c, hc, rfl⟩ := callCode_println hcode
    rw [List.length_append, ← Nat.add_assoc]
    refine (prints_region hm hsize hl hes hc hat.left).append ?_
    exact (Region.single hat.right.head (fits_operands trivial) rfl).append
      (.single hat.right.tail.head (fits_operands trivial) rfl)

/-- Behind a statement the slots are laid out for the local names behind it. -/
theorem stmtCode_laid {owner : String} {slots' : Slots} {L' : Locals} {base : Nat} {code : Code}
    (hl : Laid reserved slots L) {s : Typed.Stmt} (h : StmtType G L s L')
    (hcode : stmtCode owner slots base s = .ok (code, slots')) : Laid reserved slots' L' := by
  cases h with
  | assign =>
    obtain ⟨_, _, _, _, _, rfl⟩ := stmtCode_assign hcode
    exact hl
  | declare =>
    obtain ⟨_, _, _, _, hb, _, _⟩ := stmtCode_declare hcode
    exact hl.bind hb
  | ifThen =>
    obtain ⟨_, _, _, _, hy, _, rfl⟩ := stmtCode_ifThen hcode
    exact hl.closeScope (stmtCode_grows _ hy)
  | ifElse =>
    obtain ⟨_, _, _, _, _, _, hy, hn, _, rfl⟩ := stmtCode_ifElse hcode
    exact (hl.closeScope (stmtCode_grows _ hy)).closeScope (stmtCode_grows _ hn)
  | whileDo =>
    obtain ⟨_, _, _, _, hb, _, rfl⟩ := stmtCode_whileDo hcode
    exact hl.closeScope (stmtCode_grows _ hb)
  | block =>
    obtain ⟨_, hb, rfl⟩ := stmtCode_block hcode
    exact hl.closeScope (stmtsCode_grows _ hb)
  | call | print | println =>
    obtain ⟨_, rfl⟩ := stmtCode_call hcode
    exact hl
  | empty =>
    cases hcode
    exact hl

theorem stmtsCode_laid {owner : String} {slots' : Slots} {L' : Locals} {base : Nat} {code : Code}
    (hl : Laid reserved slots L) {body : List Typed.Stmt} (h : StmtTypes G L body L')
    (hcode : stmtsCode owner slots base body = .ok (code, slots')) : Laid reserved slots' L' := by
  induction body generalizing slots L base code with
  | nil =>
    cases h
    cases hcode
    exact hl
  | cons s body ih =>
    cases h with
    | cons hfirst hrest =>
      obtain ⟨_, _, _, hc, hothers, _⟩ := stmtsCode_cons hcode
      exact ih (stmtCode_laid hl hfirst hc) hrest hothers

end

mutual

theorem stmt_region {m : Module} {r : Routine} {G : Globals} {reserved : List Kind}
    {slots slots' : Slots} {L L' : Locals} {base : Nat} {code : Code}
    (hm : Provides m G) (hsize : r.code.size < 2 ^ 32) (hl : Laid reserved slots L)
    {s : Typed.Stmt} (h : StmtType G L s L')
    (hcode : stmtCode m.name slots base s = .ok (code, slots'))
    (hmax : slots'.maxLocals ≤ r.maxLocals) (hat : CodeAt r base code) (stack : List Kind) :
    Region m r base (base + code.length) ⟨stack, slotKinds reserved L⟩
      ⟨stack, slotKinds reserved L'⟩ :=
  match h with
  | .assign hx he => by
    obtain ⟨c, store, hc, hstore, rfl, rfl⟩ := stmtCode_assign hcode
    rw [he.ty_eq] at hstore
    rw [List.length_append, ← Nat.add_assoc]
    exact (expr_region hm hsize hl he hc hat.left stack).append
      (assign_region hm hl hmax hx hstore hat.right)
  | .declare he => by
    obtain ⟨c, slot, store, hc, hb, hstore, rfl⟩ := stmtCode_declare hcode
    rw [he.ty_eq] at hstore
    rw [List.length_append, ← Nat.add_assoc]
    exact (expr_region hm hsize hl he hc hat.left stack).append
      (declare_region hl hb hmax hstore hat.right _)
  | .ifThen hg hy => by
    obtain ⟨g, y, inner, hgc, hyc, rfl, rfl⟩ := stmtCode_ifThen hcode
    obtain ⟨hgat, -, hyat, -⟩ := hat.conditional
    rw [Slots.closeScope_maxLocals] at hmax
    have hyes := stmt_region hm hsize hl.openScope hy hyc hmax hyat stack
    exact conditional_region hsize hat (expr_region hm hsize hl hg hgc hgat stack)
      (scope_region hy.exists_append hyes) (.nil (.refl _))
  | .ifElse hg hy hn => by
    obtain ⟨g, y, n, inner, inner', hgc, hyc, hnc, rfl, rfl⟩ := stmtCode_ifElse hcode
    obtain ⟨hgat, -, hyat, -, hnat, -⟩ := hat.conditional
    have hl' := hl.closeScope (stmtCode_grows _ hyc)
    have hle := (stmtCode_grows _ hnc).maxLocals_sibling
    rw [Slots.closeScope_maxLocals] at hmax
    have hyes := stmt_region hm hsize hl.openScope hy hyc (Nat.le_trans hle hmax) hyat stack
    have hno := stmt_region hm hsize hl'.openScope hn hnc hmax hnat stack
    exact conditional_region hsize hat (expr_region hm hsize hl hg hgc hgat stack)
      (scope_region hy.exists_append hyes) (scope_region hn.exists_append hno)
  | .whileDo hg hb => by
    obtain ⟨g, b, inner, hgc, hbc, rfl, rfl⟩ := stmtCode_whileDo hcode
    obtain ⟨hgat, -, hbat, -⟩ := hat.loop
    rw [Slots.closeScope_maxLocals] at hmax
    have hbody := stmt_region hm hsize hl.openScope hb hbc hmax hbat stack
    exact loop_region hsize hat (expr_region hm hsize hl hg hgc hgat stack)
      (scope_region hb.exists_append hbody)
  | .block hb => by
    obtain ⟨inner, hbc, rfl⟩ := stmtCode_block hcode
    rw [Slots.closeScope_maxLocals] at hmax
    have hbody := stmts_region hm hsize hl.openScope hb hbc hmax hat stack
    exact scope_region hb.exists_append hbody
  | .call hf hes => by
    obtain ⟨hcall, rfl⟩ := stmtCode_call hcode
    exact call_region hm hsize hl (.call hf hes) hcall hat
  | .print hes => by
    obtain ⟨hcall, rfl⟩ := stmtCode_call hcode
    exact call_region hm hsize hl (.print hes) hcall hat
  | .println hes => by
    obtain ⟨hcall, rfl⟩ := stmtCode_call hcode
    exact call_region hm hsize hl (.println hes) hcall hat
  | .empty => by
    cases hcode
    exact .nil (.refl _)

theorem stmts_region {m : Module} {r : Routine} {G : Globals} {reserved : List Kind}
    {slots slots' : Slots} {L L' : Locals} {base : Nat} {code : Code}
    (hm : Provides m G) (hsize : r.code.size < 2 ^ 32) (hl : Laid reserved slots L)
    {body : List Typed.Stmt} (h : StmtTypes G L body L')
    (hcode : stmtsCode m.name slots base body = .ok (code, slots'))
    (hmax : slots'.maxLocals ≤ r.maxLocals) (hat : CodeAt r base code) (stack : List Kind) :
    Region m r base (base + code.length) ⟨stack, slotKinds reserved L⟩
      ⟨stack, slotKinds reserved L'⟩ :=
  match h with
  | .nil => by
    cases hcode
    exact .nil (.refl _)
  | .cons hs hrest => by
    obtain ⟨c, between, others, hc, hothers, rfl⟩ := stmtsCode_cons hcode
    have hle := (stmtsCode_grows _ hothers).maxLocals
    have hfirst := stmt_region hm hsize hl hs hc (Nat.le_trans hle hmax) hat.left stack
    have hl' := stmtCode_laid hl hs hc
    have hlast := stmts_region hm hsize hl' hrest hothers hmax hat.right stack
    rw [List.length_append, ← Nat.add_assoc]
    exact hfirst.append hlast

end

end PZero.Safety
