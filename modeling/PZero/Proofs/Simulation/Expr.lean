import PZero.Proofs.Simulation.Operators

/-! # Expressions are simulated

The code of an expression leaves its value on the operand stack and everything else
of the frame alone. The slots of the local names hold their values: the slot of a
name is the number of names declared before it, counted from the first free slot.
-/
namespace PZero.Simulation
open Bytecode Machine Rules Lowering
open Typed (Literal)
open Reference (World)

/-! ## Local names -/

/-- Each local name has its type, its slot, and there its value. -/
inductive Stored (first : Nat) (locals : Array Value) :
    Rules.Locals → List (String × UInt16) → Reference.Locals → Prop
  | nil : Stored first locals [] [] []
  | cons {L slots ρ x access t slot v} : Stored first locals L slots ρ →
      slot.toNat = first + slots.length → valueType v = t →
      locals[slot.toNat]? = some (encode v) →
      Stored first locals ((x, access, t) :: L) ((x, slot) :: slots) ((x, v) :: ρ)

namespace Stored
variable {first : Nat} {locals : Array Value} {L : Rules.Locals} {slots : List (String × UInt16)}
  {ρ : Reference.Locals}

theorem lookup_some (h : Stored first locals L slots ρ) {x : String} {access : Access}
    {t : FieldType} (hx : L.lookup x = some (access, t)) :
    ∃ slot v, slots.lookup x = some slot ∧ ρ.lookup x = some v ∧ valueType v = t ∧
      locals[slot.toNat]? = some (encode v) := by
  induction h with
  | nil => cases hx
  | @cons L slots ρ y access' t' slot v _ _ hv hslot ih =>
    simp only [lookup_cons_ite] at hx ⊢
    by_cases hxy : x = y
    · simp only [hxy, if_true, Option.some.injEq, Prod.mk.injEq] at hx ⊢
      exact ⟨slot, v, rfl, rfl, hv.trans hx.2, hslot⟩
    · simp only [hxy, if_false] at hx ⊢
      exact ih hx

theorem lookup_none (h : Stored first locals L slots ρ) {x : String} (hx : L.lookup x = none) :
    slots.lookup x = none ∧ ρ.lookup x = none := by
  induction h with
  | nil => exact ⟨rfl, rfl⟩
  | @cons L slots ρ y access' t' slot v _ _ hv hslot ih =>
    simp only [lookup_cons_ite] at hx ⊢
    by_cases hxy : x = y
    · simp [hxy] at hx
    · simp only [hxy, if_false] at hx ⊢
      exact ih hx

end Stored

/-! ## Calls -/

/-- Every call instruction does what the call of the reference semantics does. -/
def Invokes (c : Setting) (n : Nat) (G : Globals) (owner : String) (callers : List Frame)
    (call : Reference.Call) : Prop :=
  ∀ {name parameters result}, G.lookup name = some (.function parameters result) →
  ∀ {r pc arguments}, r.code[pc]? = some (.invoke ⟨owner, name, ⟨parameters, result⟩⟩) →
    arguments.map valueType = parameters → ∀ locals stack w,
    Simulates c n (At G r pc locals ((arguments.map encode).reverse ++ stack) callers w)
      (call name arguments w)
      fun v w cfg => v.map valueType = result ∧
        At G r (pc + 1) locals ((v.map encode).toList ++ stack) callers w cfg

/-- What the code of a routine relies on. -/
structure Place (c : Setting) (n : Nat) (G : Globals) (owner : String) (r : Routine)
    (callers : List Frame) (call : Reference.Call) : Prop where
  generous : Generous c
  size : r.code.size < 2 ^ 32
  module_name : c.module.name = owner
  invokes : Invokes c n G owner callers call

/-! ## Branches -/

theorem bind_done {α : Type} (o : Reference.Outcome α) : o.bind .done = o := by
  cases o <;> rfl

section
variable {α : Type} {c : Setting} {n : Nat} {G : Globals} {r : Routine} {base : Nat}
  {locals : Array Value} {stack : List Value} {callers : List Frame} {w : World}

theorem guard_simulates (hc : Generous c) {pc : Nat} {tgt : UInt32} (b : Bool)
    (hi : r.code[pc]? = some (.ifZero .eq tgt)) {o : Reference.Outcome α}
    {post : α → World → Config → Prop}
    (h : Simulates c n (At G r (if b then pc + 1 else tgt.toNat) locals stack callers w) o post) :
    Simulates c (n + 1) (At G r pc locals (encode (.bool b) :: stack) callers w) o post := by
  refine h.step hc hi fun s hs => ⟨s, ?_, hs⟩
  cases b <;> exact perform_ifZero _ _ _ _ _ _

/-- A conditional, when its guard was evaluated; a jump to its end makes no difference. -/
theorem conditional_simulates (hc : Generous c) (hsize : r.code.size < 2 ^ 32)
    {guard yes no : Code} (hat : CodeAt r base (conditional base guard yes no))
    {post : Nat → α → World → Config → Prop}
    (hgoto : ∀ {pc tgt}, r.code[pc]? = some (.goto tgt) → ∀ a w,
      Simulates c n (post pc a w) (.done a w) (post tgt.toNat))
    (b : Bool) {oy on : Reference.Outcome α}
    (hy : Simulates c n (At G r (yesStart base guard) locals stack callers w) oy
      (post (yesStart base guard + yes.length)))
    (hn : Simulates c n (At G r (noStart base guard yes) locals stack callers w) on
      (post (noStart base guard yes + no.length))) :
    Simulates c n (At G r (base + guard.length) locals (encode (.bool b) :: stack) callers w)
      (if b then oy else on) (post (base + (conditional base guard yes no).length)) := by
  obtain ⟨-, hif, -, hjump, -, hend⟩ := hat.conditional
  have hle := hat.le_size
  rw [hend] at hle ⊢
  refine (guard_simulates hc b hif ?_).le (Nat.le_succ n)
  cases b with
  | true =>
    have hlast := hy.bind (hgoto hjump)
    rwa [bind_done, target_toNat (by omega)] at hlast
  | false =>
    rw [if_neg (by simp), if_neg (by simp), target_toNat (by omega)]
    exact hn

theorem yields_goto (hc : Generous c) {t : FieldType} {pc : Nat} {tgt : UInt32}
    (hi : r.code[pc]? = some (.goto tgt)) (v : Literal) (w : World) :
    Simulates c n (Yields G r pc locals stack callers t v w) (.done v w)
      (Yields G r tgt.toNat locals stack callers t) :=
  .assuming fun hv => .pure hc hi (fun _ => rfl) (.done fun _ h => ⟨hv, h⟩)

end

/-! ## Expressions -/

theorem truth_simulates {α : Type} {c : Setting} {n : Nat} {P : Config → Prop} {v : Literal}
    {w : World} {f : Bool → World → Reference.Outcome α} {post : α → World → Config → Prop}
    (hv : valueType v = .bool)
    (h : ∀ b, v = .bool b → Simulates c n P (f b w) post) :
    Simulates c n P ((Reference.truth v w).bind f) post := by
  cases v with
  | bool b => exact h b rfl
  | int | float | string => cases hv

section
variable {c : Setting} {n : Nat} {G : Globals} {owner : String} {r : Routine}
  {callers : List Frame} {call : Reference.Call} {first : Nat} {locals : Array Value}
  {L : Rules.Locals} {slots : Slots} {ρ : Reference.Locals}

theorem valueOf_simulates (hp : Place c n G owner r callers call)
    (hs : Stored first locals L slots.names.bindings ρ) {name : String} {access : Access}
    {t : FieldType} (h : meaningOf G L name = some (.value access t)) {base : Nat}
    {i : Instruction} (hi : nameCode owner slots (typeOf t) name = .ok i)
    (hat : CodeAt r base [i]) (stack : List Value) (w : World) :
    Simulates c n (At G r base locals stack callers w) (Reference.valueOf ρ name w)
      (Yields G r (base + 1) locals stack callers t) := by
  have hget : slots.get? name = slots.names.bindings.lookup name := Scope.get?_eq_lookup _ _
  unfold meaningOf at h
  cases hl : L.lookup name with
  | some binding =>
    obtain ⟨access', t'⟩ := binding
    rw [hl] at h
    cases h
    obtain ⟨slot, v, hslot, hv, rfl, hload⟩ := hs.lookup_some hl
    simp only [Reference.valueOf, hv]
    refine single_simulates hp.generous hat fun s => ?_
    rcases nameCode_local (hget.trans hslot) hi with ⟨ht, rfl⟩ | ⟨ht, rfl⟩
    · cases v with
      | int | bool => simp only [perform, Frame.load, hload]; rfl
      | float | string => rcases ht with ht | ht <;> cases ht
    · cases v with
      | float => simp only [perform, Frame.load, hload]; rfl
      | int | bool | string => cases ht
  | none =>
    rw [hl] at h
    obtain ⟨hslot, hlocal⟩ := hs.lookup_none hl
    obtain rfl := nameCode_global (hget.trans hslot) hi
    intro cfg hcfg
    obtain ⟨v, rfl, hglobal⟩ : ∃ v, valueType v = t ∧ w.globals name = some v := by
      obtain ⟨_, _, _, hstore⟩ := hcfg
      obtain ⟨v, hv, hglobal, -⟩ := hstore.globals h
      exact ⟨v, hv, hglobal⟩
    have heval : Reference.valueOf ρ name w = .done v w := by
      simp only [Reference.valueOf, hlocal, hglobal]
    rw [heval]
    refine Simulates.next (n := n) hp.generous hat.head (fun s hs => ⟨s, ?_, hs⟩)
      (.done fun _ hcfg => ⟨rfl, hcfg⟩) cfg hcfg
    obtain ⟨v', -, hglobal', hstatic⟩ := hs.globals h
    obtain rfl : v = v' := Option.some.inj (hglobal.symm.trans hglobal')
    simp only [perform, Setting.static, hp.module_name, beq_self_eq_true, if_true, hstatic]
    rfl

mutual

theorem expr_simulates (hp : Place c n G owner r callers call)
    (hs : Stored first locals L slots.names.bindings ρ) {e : Typed.Expr} {t : FieldType}
    (h : ExprType G L e t) {base : Nat} {code : Code}
    (hcode : exprCode owner slots base e = .ok code) (hat : CodeAt r base code)
    (stack : List Value) (w : World) :
    Simulates c n (At G r base locals stack callers w) (Reference.expr call ρ e w)
      (Yields G r (base + code.length) locals stack callers t) :=
  match h with
  | .ternary hg hy hn => by
    obtain ⟨g, y, n, hgc, hyc, hnc, rfl⟩ := exprCode_ternary hcode
    obtain ⟨hgat, -, hyat, -, hnat, -⟩ := hat.conditional
    rw [Reference.expr]
    refine (expr_simulates hp hs hg hgc hgat stack w).bind fun v w => .assuming fun hv => ?_
    refine truth_simulates hv fun b hb => ?_
    subst hb
    have hbranch := conditional_simulates hp.generous hp.size hat (yields_goto hp.generous) b
      (expr_simulates hp hs hy hyc hyat stack w) (expr_simulates hp hs hn hnc hnat stack w)
    cases b <;> exact hbranch
  | .binary hl hr ho => by
    obtain ⟨l, r', combine, hlc, hrc, hcombine, rfl⟩ := exprCode_binary hcode
    rw [Reference.expr]
    refine (expr_simulates hp hs hl hlc hat.left.left stack w).bind fun a w => .assuming fun ha => ?_
    refine (expr_simulates hp hs hr hrc hat.left.right _ w).bind fun b w => .assuming fun hb => ?_
    rw [hl.ty_eq] at hcombine
    have hat' := hat.right
    simp only [List.length_append, ← Nat.add_assoc] at hat' ⊢
    exact binary_simulates hp.generous hp.size ho hcombine hat' ha hb
  | .unary he ho => by
    obtain ⟨c', apply, hc, happly, rfl⟩ := exprCode_unary hcode
    rw [Reference.expr]
    refine (expr_simulates hp hs he hc hat.left stack w).bind fun v w => .assuming fun hv => ?_
    rw [List.length_append, ← Nat.add_assoc]
    exact unary_simulates hp.generous hp.size ho happly hat.right hv
  | .call hf hes => by
    obtain ⟨c', hc, rfl⟩ := exprCode_call hes.map_ty hcode
    rw [Reference.expr]
    refine (exprs_simulates hp hs hes hc hat.left stack w).bind fun vs w => .assuming fun hvs => ?_
    have hcall := hp.invokes (meaningOf_eq_function hf) hat.right.head hvs locals stack w
    refine hcall.bind fun v w => .assuming fun hv => ?_
    cases v with
    | none => cases hv
    | some v =>
      rw [List.length_append, ← Nat.add_assoc]
      exact .done fun cfg hcfg => ⟨Option.some.inj hv, hcfg⟩
  | .name hx => by
    obtain ⟨i, hi, rfl⟩ := exprCode_name hcode
    rw [Reference.expr]
    exact valueOf_simulates hp hs hx hi hat stack w
  | @ExprType.literal _ _ v => by
    cases hcode
    rw [Reference.expr]
    refine single_simulates hp.generous hat fun s => ?_
    cases v <;> rfl

theorem exprs_simulates (hp : Place c n G owner r callers call)
    (hs : Stored first locals L slots.names.bindings ρ) {es : List Typed.Expr}
    {ts : List FieldType} (h : ExprTypes G L es ts) {base : Nat} {code : Code}
    (hcode : exprsCode owner slots base es = .ok code) (hat : CodeAt r base code)
    (stack : List Value) (w : World) :
    Simulates c n (At G r base locals stack callers w) (Reference.exprs call ρ es w)
      fun vs w cfg => vs.map valueType = ts ∧
        At G r (base + code.length) locals ((vs.map encode).reverse ++ stack) callers w cfg :=
  match h with
  | .nil => by
    cases hcode
    rw [Reference.exprs]
    exact .done fun cfg hcfg => ⟨rfl, hcfg⟩
  | .cons he hes => by
    obtain ⟨c', others, hc, hothers, rfl⟩ := exprsCode_cons hcode
    rw [Reference.exprs]
    refine (expr_simulates hp hs he hc hat.left stack w).bind fun v w => .assuming fun hv => ?_
    refine (exprs_simulates hp hs hes hothers hat.right _ w).bind fun vs w => .assuming fun hvs => ?_
    refine .done fun cfg hcfg => ⟨by rw [List.map_cons, hv, hvs], ?_⟩
    simpa [Nat.add_assoc] using hcfg

end

end
end PZero.Simulation
