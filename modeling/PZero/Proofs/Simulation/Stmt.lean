import PZero.Proofs.Simulation.Expr

/-! # Statements are simulated

The code of a statement leaves the operand stack as it was, and behind it the slots
hold the values of the local names again. A scope gives its slots back, so that the
names outside of it are where they were.
-/
namespace PZero.Simulation
open Bytecode Machine Rules Lowering
open Typed (Literal)
open Reference (World)

/-! ## Changes of local names -/

namespace Stored
variable {first : Nat} {locals : Array Value} {L : Rules.Locals} {slots : List (String × UInt16)}
  {ρ : Reference.Locals}

theorem length_eq (h : Stored first locals L slots ρ) :
    slots.length = L.length ∧ ρ.length = L.length := by
  induction h with
  | nil => exact ⟨rfl, rfl⟩
  | cons _ _ _ _ ih => exact ⟨congrArg (· + 1) ih.1, congrArg (· + 1) ih.2⟩

/-- Slots behind those in use are free. -/
theorem set_free (h : Stored first locals L slots ρ) {k : Nat} (hk : first + slots.length ≤ k)
    (v : Value) : Stored first (locals.setIfInBounds k v) L slots ρ := by
  induction h with
  | nil => exact .nil
  | @cons L slots ρ x access t slot u _ hslot hu hload ih =>
    simp only [List.length_cons] at hk
    refine .cons (ih (by omega)) hslot hu ?_
    rw [Array.getElem?_setIfInBounds_ne (by omega), hload]

theorem declare (h : Stored first locals L slots ρ) {slot : UInt16}
    (hslot : slot.toNat = first + slots.length) (hsize : slot.toNat < locals.size) (x : String)
    (access : Access) (v : Literal) :
    Stored first (locals.setIfInBounds slot.toNat (encode v)) ((x, access, valueType v) :: L)
      ((x, slot) :: slots) ((x, v) :: ρ) := by
  refine .cons (h.set_free (Nat.le_of_eq hslot.symm) _) hslot rfl ?_
  rw [Array.getElem?_setIfInBounds_self_of_lt hsize]

/-- A value for the innermost local name of its kind goes to the slot of that name. -/
theorem assign (h : Stored first locals L slots ρ) {x : String} {access : Access} {v : Literal}
    (hx : L.lookup x = some (access, valueType v)) :
    ∃ slot, slots.lookup x = some slot ∧ slot.toNat < first + slots.length ∧
      slot.toNat < locals.size ∧
      Stored first (locals.setIfInBounds slot.toNat (encode v)) L slots
        (Reference.replace x v ρ) := by
  induction h with
  | nil => cases hx
  | @cons L slots ρ y access' t slot u hrest hslot hu hload ih =>
    have hsize : slot.toNat < locals.size := (Array.getElem?_eq_some_iff.mp hload).1
    simp only [lookup_cons_ite, Reference.replace] at hx ⊢
    by_cases hxy : x = y
    · simp only [hxy, if_true, Option.some.injEq, Prod.mk.injEq, List.length_cons] at hx ⊢
      refine ⟨slot, rfl, by omega, hsize, ?_⟩
      refine .cons (hrest.set_free (Nat.le_of_eq hslot.symm) _) hslot hx.2.symm ?_
      rw [Array.getElem?_setIfInBounds_self_of_lt hsize]
    · simp only [hxy, if_false, List.length_cons] at hx ⊢
      obtain ⟨found, hfound, hlt, hsize', hstored⟩ := ih hx
      refine ⟨found, hfound, by omega, hsize', .cons hstored hslot hu ?_⟩
      rw [Array.getElem?_setIfInBounds_ne (by omega), hload]

theorem drop {added : Rules.Locals} {added' : List (String × UInt16)}
    (h : Stored first locals (added ++ L) (added' ++ slots) ρ)
    (hl : added'.length = added.length) :
    Stored first locals L slots (ρ.drop added.length) := by
  induction added generalizing added' ρ with
  | nil =>
    obtain rfl := List.length_eq_zero_iff.mp hl
    exact h
  | cons a added ih =>
    cases added' with
    | nil => cases hl
    | cons a' added' =>
      cases h with
      | cons hrest _ _ _ => exact ih hrest (Nat.succ.inj hl)

end Stored

/-! ## Behind a statement -/

/-- The slots hold the local names again, in a frame of the same size. -/
def Settled (G : Globals) (r : Routine) (first size : Nat) (L : Rules.Locals) (slots : Slots)
    (stack : List Value) (callers : List Frame) (pc : Nat) (ρ : Reference.Locals) (w : World)
    (cfg : Config) : Prop :=
  ∃ locals, (Stored first locals L slots.names.bindings ρ ∧ locals.size = size) ∧
    At G r pc locals stack callers w cfg

section
variable {c : Setting} {n : Nat} {G : Globals} {owner : String} {r : Routine}
  {callers : List Frame} {call : Reference.Call} {first size : Nat} {locals : Array Value}
  {L L' : Rules.Locals} {slots inner : Slots} {ρ : Reference.Locals} {stack : List Value}
  {w : World}

theorem settled_goto (hc : Generous c) {pc : Nat} {tgt : UInt32}
    (hi : r.code[pc]? = some (.goto tgt)) (ρ : Reference.Locals) (w : World) :
    Simulates c n (Settled G r first size L slots stack callers pc ρ w) (.done ρ w)
      (Settled G r first size L slots stack callers tgt.toNat) :=
  .assumingExists fun locals => .assuming fun hs =>
    .pure hc hi (fun _ => rfl) (.done fun _ h => ⟨locals, hs, h⟩)

theorem settled_congr {slots' : Slots} (h : slots'.names = slots.names) :
    Settled G r first size L slots' stack callers = Settled G r first size L slots stack callers := by
  unfold Settled
  rw [h]

/-- A scope forgets what was declared in it. -/
theorem inScope_simulates {P : Config → Prop} {pc : Nat}
    {body : Reference.Locals → Reference.Eval Reference.Locals} (hg : slots.openScope.Grows inner)
    (hl : ∃ added, L' = added ++ L) (hs : Stored first locals L slots.names.bindings ρ)
    (h : Simulates c n P (body ρ w) (Settled G r first size L' inner stack callers pc)) :
    Simulates c n P (Reference.inScope body ρ w)
      (Settled G r first size L slots stack callers pc) := by
  refine h.bind fun ρ' w' => .done ?_
  rintro cfg ⟨locals, ⟨hstored, hsize⟩, hcfg⟩
  obtain ⟨added, rfl⟩ := hl
  obtain ⟨added', hnames, -⟩ := hg.bindings
  rw [hnames, Slots.bindings_openScope] at hstored
  have hbefore := hs.length_eq
  have hbehind := hstored.length_eq
  simp only [List.length_append] at hbehind
  have hdrop : ρ'.length - ρ.length = added.length := by omega
  rw [hdrop]
  exact ⟨locals, ⟨hstored.drop (by omega), hsize⟩, hcfg⟩

/-! ## Printing -/

theorem print_holds (hc : Generous c) {s : Store} (hs : Holds G w s) (text : String) :
    ∃ s', s.print c.sink text = .ok s' ∧ Holds G { w with output := w.output ++ text } s' := by
  by_cases ht : text = ""
  · subst ht
    refine ⟨s, rfl, ?_, hs.globals⟩
    rw [hs.output, String.append_empty]
  · have hne : text.isEmpty = false := by simpa using ht
    refine ⟨{ s with output := s.output ++ text }, ?_, ?_, hs.globals⟩
    · simp [Store.print, hne, hc.accepts]
    · rw [hs.output]

theorem printed?_encode {v : Literal} {t : FieldType} (hv : valueType v = t) (ht : t ≠ .float) :
    printed? t (encode v) = some (Reference.text v) := by
  subst hv
  cases v with
  | bool b => cases b <;> rfl
  | int | string => rfl
  | float => exact (ht rfl).elim

/-- A value with a text is taken off the stack with the stream below it. -/
theorem perform_print {pc : Nat} {t : FieldType} {v : Value} {text : String} (s : Store)
    (h : printed? t v = some text) :
    perform c ⟨r, pc + 1, pc, locals, v :: .stream :: stack⟩ s (.print t) =
      (s.print c.sink text).map (.next ⟨r, pc + 1, pc, locals, stack⟩) := by
  simp only [perform, Frame.pop, Frame.popStream, bind, Except.bind, h]
  rfl

theorem print_simulates (hc : Generous c) {v : Literal} {t : FieldType} {i : Instruction}
    {pc : Nat} (hv : valueType v = t) (hi : printCode (typeOf t) = .ok i)
    (hat : r.code[pc]? = some i) :
    Simulates c n (At G r pc locals (encode v :: .stream :: stack) callers w)
      (Reference.write (Reference.text v) w)
      (fun _ w cfg => At G r (pc + 1) locals stack callers w cfg) := by
  refine .next hc hat (fun s hs => ?_) (.done fun _ h => h)
  obtain ⟨s', hprint, hs'⟩ := print_holds hc hs (Reference.text v)
  refine ⟨s', ?_, hs'⟩
  rcases printCode_typeOf hi with ⟨ht, rfl⟩ | ⟨ht, rfl⟩
  · cases v with
    | float x =>
      change (s.print c.sink (Reference.text (.float x)) >>= _) = _
      rw [hprint]
      rfl
    | int | bool | string => subst hv; cases ht
  · rw [perform_print s (printed?_encode hv ht), hprint]
    rfl

theorem prints_simulates (hp : Place c n G owner r callers call)
    (hs : Stored first locals L slots.names.bindings ρ) {es : List Typed.Expr}
    {ts : List FieldType} (h : ExprTypes G L es ts) {base : Nat} {code : Code}
    (hcode : printsCode owner slots base es = .ok code) (hat : CodeAt r base code)
    (stack : List Value) (w : World) :
    Simulates c n (At G r base locals stack callers w) (Reference.print call ρ es w)
      (fun _ w cfg => At G r (base + code.length) locals stack callers w cfg) := by
  induction es generalizing ts base code w with
  | nil =>
    cases hcode
    exact .done fun _ h => h
  | cons e es ih =>
    cases h with
    | cons he hes =>
      obtain ⟨c', print, others, hc, hprint, hothers, rfl⟩ := printsCode_cons hcode
      rw [he.ty_eq] at hprint
      obtain ⟨hstream, hargument, hi, hrest, hend⟩ := hat.printed
      refine .pure hp.generous hstream (fun _ => rfl) ?_
      rw [Reference.print, hend]
      refine (expr_simulates hp hs he hc hargument _ w).bind fun v w => .assuming fun hv => ?_
      refine (print_simulates hp.generous hv hprint hi).bind fun _ w => ?_
      exact ih hes hothers hrest w

/-! ## Loops -/

/-- A loop that was entered `m` times with fuel left takes at least `m` steps. -/
theorem iterate_simulates (hp : Place c n G owner r callers call) {base : Nat} {g b : Code}
    (hat : CodeAt r base (loop base g b))
    {guard : Reference.Locals → Reference.Eval Literal}
    {body : Reference.Locals → Reference.Eval Reference.Locals}
    (hguard : ∀ {locals ρ}, Stored first locals L slots.names.bindings ρ → ∀ w,
      Simulates c n (At G r base locals stack callers w) (guard ρ w)
        (Yields G r (base + g.length) locals stack callers .bool))
    (hbody : ∀ {locals ρ}, Stored first locals L slots.names.bindings ρ → locals.size = size →
      ∀ w, Simulates c n (At G r (yesStart base g) locals stack callers w) (body ρ w)
        (Settled G r first size L slots stack callers (yesStart base g + b.length)))
    {m : Nat} (hm : m ≤ n) {locals : Array Value} {ρ : Reference.Locals}
    (hs : Stored first locals L slots.names.bindings ρ) (hsize : locals.size = size) (w : World) :
    Simulates c m (At G r base locals stack callers w)
      (Reference.iterate guard body m ρ w)
      (Settled G r first size L slots stack callers (base + (loop base g b).length)) := by
  obtain ⟨-, hif, -, hgoto, hend⟩ := hat.loop
  have hle := hat.le_size
  have hcode := hp.size
  rw [hend] at hle ⊢
  induction m generalizing locals ρ w with
  | zero => exact fun cfg _ => rfl
  | succ m ih =>
    rw [Reference.iterate]
    refine ((hguard hs w).le hm).bind fun v w => .assuming fun hv => ?_
    refine truth_simulates hv fun holds hb => ?_
    subst hb
    refine guard_simulates hp.generous holds hif ?_
    cases holds with
    | true =>
      refine ((hbody hs hsize w).le (by omega)).bind fun ρ w => ?_
      refine .assumingExists fun locals => .assuming fun ⟨hs, hsize⟩ => ?_
      refine .pure hp.generous hgoto (fun _ => rfl) ?_
      rw [target_toNat (by omega)]
      exact ih (by omega) hs hsize w
    | false =>
      rw [if_neg (by simp), target_toNat (by omega)]
      exact .done fun cfg hcfg => ⟨locals, ⟨hs, hsize⟩, hcfg⟩

/-! ## Assignments -/

theorem store_simulates (hc : Generous c) {slot : UInt16} {v : Literal} {i : Instruction} {pc : Nat}
    (hi : storeCode (typeOf (valueType v)) slot = .ok i) (hat : r.code[pc]? = some i)
    (hsize : slot.toNat < locals.size) {α : Type} {o : Reference.Outcome α}
    {post : α → World → Config → Prop}
    (h : Simulates c n (At G r (pc + 1) (locals.setIfInBounds slot.toNat (encode v)) stack callers w)
      o post) :
    Simulates c n (At G r pc locals (encode v :: stack) callers w) o post := by
  refine .pure hc hat (fun s => ?_) h
  rcases storeCode_typeOf hi with ⟨ht, rfl⟩ | ⟨ht, rfl⟩
  · cases v with
    | int | bool =>
      simp only [perform, Frame.popInt, Frame.pop, encode, constantOf, Value.ofConstant,
        Value.ofBool, bind, Except.bind, pure, Except.pure, Frame.store, if_pos hsize]
    | float | string => rcases ht with ht | ht <;> cases ht
  · cases v with
    | float =>
      simp only [perform, Frame.popFloat, Frame.pop, encode, constantOf, Value.ofConstant, bind,
        Except.bind, pure, Except.pure, Frame.store, if_pos hsize]
    | int | bool | string => cases ht

theorem Holds.setGlobal {s : Store} (hs : Holds G w s) {name : String} {access : Access}
    {v : Literal} (h : G.lookup name = some (.value access (valueType v))) :
    Holds G (w.setGlobal name v) (s.setStatic name (encode v)) := by
  refine ⟨hs.output, ?_⟩
  intro x access' t hx
  obtain ⟨u, hu, hglobal, hstatic⟩ := hs.globals hx
  rw [lookup_setStatic]
  by_cases hname : x = name
  · subst hname
    rw [h] at hx
    cases hx
    exact ⟨v, rfl, by simp [World.setGlobal], by simp [hstatic]⟩
  · exact ⟨u, hu, by simp [World.setGlobal, hname, hglobal], by simp [hname, hstatic]⟩

theorem assign_simulates (hp : Place c n G owner r callers call)
    (hs : Stored first locals L slots.names.bindings ρ) {name : String} {access : Access}
    {v : Literal} (h : meaningOf G L name = some (.value access (valueType v))) {pc : Nat}
    {i : Instruction} (hi : assignCode owner slots (typeOf (valueType v)) name = .ok i)
    (hat : r.code[pc]? = some i) :
    Simulates c n (At G r pc locals (encode v :: stack) callers w) (Reference.assign ρ name v w)
      (Settled G r first locals.size L slots stack callers (pc + 1)) := by
  have hget : slots.get? name = slots.names.bindings.lookup name := Scope.get?_eq_lookup _ _
  unfold meaningOf at h
  cases hl : L.lookup name with
  | some binding =>
    obtain ⟨access', t'⟩ := binding
    rw [hl] at h
    cases h
    obtain ⟨slot, hslot, -, hsize, hs'⟩ := hs.assign hl
    obtain ⟨_, u, _, hu, -⟩ := hs.lookup_some hl
    have heval : Reference.assign ρ name v w = .done (Reference.replace name v ρ) w := by
      simp [Reference.assign, hu]
    rw [heval]
    simp only [assignCode, hget.trans hslot] at hi
    exact store_simulates hp.generous hi hat hsize
      (.done fun cfg hcfg => ⟨_, ⟨hs', Array.size_setIfInBounds⟩, hcfg⟩)
  | none =>
    rw [hl] at h
    obtain ⟨hslot, hlocal⟩ := hs.lookup_none hl
    obtain rfl := assignCode_global (hget.trans hslot) hi
    intro cfg hcfg
    obtain ⟨u, hu⟩ : ∃ u, w.globals name = some u := by
      obtain ⟨_, _, _, hstore⟩ := hcfg
      obtain ⟨u, -, hu, -⟩ := hstore.globals h
      exact ⟨u, hu⟩
    have heval : Reference.assign ρ name v w = .done ρ (w.setGlobal name v) := by
      simp [Reference.assign, hlocal, hu]
    rw [heval]
    refine Simulates.next (n := n) hp.generous hat
      (fun s hs => ⟨s.setStatic name (encode v), ?_, hs.setGlobal h⟩)
      (.done fun cfg hcfg => ⟨locals, ⟨hs, rfl⟩, hcfg⟩) cfg hcfg
    obtain ⟨_, -, -, hstatic⟩ := hs.globals h
    simp only [perform, Frame.pop, Setting.static, hp.module_name, beq_self_eq_true, if_true,
      hstatic]
    rfl

/-! ## Statements -/

theorem perform_simulates (hp : Place c n G owner r callers call)
    (hs : Stored first locals L slots.names.bindings ρ) {callee : Typed.Callee}
    {arguments : List Typed.Expr} (h : StmtType G L (.call callee arguments) L') {base : Nat}
    {code : Code} (hcode : callCode owner slots base callee arguments = .ok code)
    (hat : CodeAt r base code) (w : World) :
    Simulates c n (At G r base locals stack callers w)
      (Reference.perform call ρ arguments callee w)
      (fun _ w cfg => At G r (base + code.length) locals stack callers w cfg) := by
  cases h with
  | print hes => exact prints_simulates hp hs hes hcode hat stack w
  | println hes =>
    obtain ⟨c', hc, rfl⟩ := callCode_println hcode
    refine (prints_simulates hp hs hes hc hat.left stack w).bind fun _ w => ?_
    refine .pure hp.generous hat.right.head (fun _ => rfl) ?_
    rw [List.length_append, ← Nat.add_assoc]
    refine .next hp.generous hat.right.tail.head (fun s hs => ?_) (.done fun _ h => h)
    obtain ⟨s', hprint, hs'⟩ := print_holds hp.generous hs "\n"
    refine ⟨s', ?_, hs'⟩
    change (s.print c.sink "\n" >>= _) = _
    rw [hprint]
    rfl
  | call hf hes =>
    obtain ⟨c', hc, rfl⟩ := callCode_function hes.map_ty hcode
    refine (exprs_simulates hp hs hes hc hat.left stack w).bind fun vs w => .assuming fun hvs => ?_
    have hcall := hp.invokes (meaningOf_eq_function hf) hat.right.head hvs locals stack w
    refine hcall.bind fun v w => .assuming fun hv => ?_
    cases v with
    | some v => cases hv
    | none =>
      rw [List.length_append, ← Nat.add_assoc]
      exact .done fun cfg hcfg => hcfg

theorem call_simulates (hp : Place c n G owner r callers call)
    (hs : Stored first locals L slots.names.bindings ρ) {callee : Typed.Callee}
    {arguments : List Typed.Expr} (h : StmtType G L (.call callee arguments) L') {base : Nat}
    {code : Code} {slots' : Slots}
    (hcode : stmtCode owner slots base (.call callee arguments) = .ok (code, slots'))
    (hat : CodeAt r base code) (w : World) :
    Simulates c n (At G r base locals stack callers w)
      (Reference.stmt call n (.call callee arguments) ρ w)
      (Settled G r first locals.size L' slots' stack callers (base + code.length)) := by
  obtain ⟨hcall, rfl⟩ := stmtCode_call hcode
  obtain rfl : L' = L := by cases h <;> rfl
  rw [Reference.stmt]
  exact (perform_simulates hp hs h hcall hat w).bind fun _ w =>
    .done fun cfg hcfg => ⟨locals, ⟨hs, rfl⟩, hcfg⟩

end

mutual

theorem stmt_simulates {c : Setting} {n : Nat} {G : Globals} {owner : String} {r : Routine}
    {callers : List Frame} {call : Reference.Call} (hp : Place c n G owner r callers call)
    {L L' : Rules.Locals} {s : Typed.Stmt} (h : StmtType G L s L') {slots slots' : Slots}
    {base : Nat} {code : Code} (hcode : stmtCode owner slots base s = .ok (code, slots'))
    (hat : CodeAt r base code) {first : Nat} {locals : Array Value} {ρ : Reference.Locals}
    (hs : Stored first locals L slots.names.bindings ρ) (hnext : slots.Counts first)
    (hmax : slots'.maxLocals.toNat ≤ locals.size) (stack : List Value) (w : World) :
    Simulates c n (At G r base locals stack callers w) (Reference.stmt call n s ρ w)
      (Settled G r first locals.size L' slots' stack callers (base + code.length)) :=
  match h with
  | .assign hx he => by
    obtain ⟨c', store, hc, hstore, rfl, rfl⟩ := stmtCode_assign hcode
    rw [he.ty_eq] at hstore
    rw [Reference.stmt]
    refine (expr_simulates hp hs he hc hat.left stack w).bind fun v w => .assuming fun hv => ?_
    subst hv
    rw [List.length_append, ← Nat.add_assoc]
    exact assign_simulates hp hs hx hstore hat.right.head
  | .declare he => by
    obtain ⟨c', slot, store, hc, hbind, hstore, rfl⟩ := stmtCode_declare hcode
    obtain ⟨rfl, hnames, hslots, hlast, -⟩ := Slots.bind_eq hbind
    have hlast := UInt16.le_iff_toNat_le.mp hlast
    have hsize : slots.next.toNat < locals.size := by omega
    rw [he.ty_eq] at hstore
    rw [Reference.stmt]
    refine (expr_simulates hp hs he hc hat.left stack w).bind fun v w => .assuming fun hv => ?_
    subst hv
    rw [List.length_append, ← Nat.add_assoc]
    refine store_simulates hp.generous hstore hat.right.head hsize (.done fun cfg hcfg => ?_)
    exact ⟨_, ⟨hnames ▸ hs.declare hnext hsize _ _ v, Array.size_setIfInBounds⟩, hcfg⟩
  | .ifThen hg hy => by
    obtain ⟨g, y, inner, hgc, hyc, rfl, rfl⟩ := stmtCode_ifThen hcode
    obtain ⟨hgat, -, hyat, -, -, -⟩ := hat.conditional
    have hgrows := stmtCode_grows _ hyc
    rw [Slots.closeScope_maxLocals] at hmax
    rw [Reference.stmt, settled_congr hgrows.names_closeScope]
    refine (expr_simulates hp hs hg hgc hgat stack w).bind fun v w => .assuming fun hv => ?_
    refine truth_simulates hv fun b hb => ?_
    subst hb
    have hbranch := conditional_simulates hp.generous hp.size hat (settled_goto hp.generous) b
      (inScope_simulates hgrows hy.exists_append hs
        (stmt_simulates hp hy hyc hyat (slots.bindings_openScope ▸ hs) hnext.openScope hmax stack w))
      (.done fun cfg hcfg => ⟨locals, ⟨hs, rfl⟩, hcfg⟩)
    cases b <;> exact hbranch
  | .ifElse hg hy hn => by
    obtain ⟨g, y, n, inner, inner', hgc, hyc, hnc, rfl, rfl⟩ := stmtCode_ifElse hcode
    obtain ⟨hgat, -, hyat, -, hnat, -⟩ := hat.conditional
    have hgrows := stmtCode_grows _ hyc
    have hgrows' := stmtCode_grows _ hnc
    have hnames := hgrows.names_closeScope
    have hs' : Stored first locals L inner.closeScope.names.bindings ρ := hnames ▸ hs
    have hnext' := hnext.grows hgrows.closeScope
    have hyesMax := UInt16.le_iff_toNat_le.mp hgrows'.maxLocals
    rw [Slots.closeScope_maxLocals] at hmax
    rw [Reference.stmt, settled_congr (hgrows'.names_closeScope.trans hnames)]
    refine (expr_simulates hp hs hg hgc hgat stack w).bind fun v w => .assuming fun hv => ?_
    refine truth_simulates hv fun b hb => ?_
    subst hb
    have hbranch := conditional_simulates hp.generous hp.size hat (settled_goto hp.generous) b
      (inScope_simulates hgrows hy.exists_append hs
        (stmt_simulates hp hy hyc hyat (slots.bindings_openScope ▸ hs) hnext.openScope
          (by simp only [Slots.openScope, Slots.closeScope_maxLocals] at hyesMax; omega) stack w))
      (settled_congr hnames ▸ inScope_simulates hgrows' hn.exists_append hs'
        (stmt_simulates hp hn hnc hnat (inner.closeScope.bindings_openScope ▸ hs') hnext'.openScope
          hmax stack w))
    cases b <;> exact hbranch
  | .whileDo hg hb => by
    obtain ⟨g, b, inner, hgc, hbc, rfl, rfl⟩ := stmtCode_whileDo hcode
    obtain ⟨hgat, -, hbat, -, -⟩ := hat.loop
    have hgrows := stmtCode_grows _ hbc
    rw [Slots.closeScope_maxLocals] at hmax
    rw [Reference.stmt, settled_congr hgrows.names_closeScope]
    refine iterate_simulates hp hat (fun hs w => expr_simulates hp hs hg hgc hgat stack w)
      (fun hs hsize w => ?_) (Nat.le_refl n) hs rfl w
    rw [← hsize] at hmax ⊢
    exact inScope_simulates hgrows hb.exists_append hs
      (stmt_simulates hp hb hbc hbat (slots.bindings_openScope ▸ hs) hnext.openScope hmax stack w)
  | .block hb => by
    obtain ⟨inner, hbc, rfl⟩ := stmtCode_block hcode
    have hgrows := stmtsCode_grows _ hbc
    rw [Slots.closeScope_maxLocals] at hmax
    rw [Reference.stmt, settled_congr hgrows.names_closeScope]
    exact inScope_simulates hgrows hb.exists_append hs
      (stmts_simulates hp hb hbc hat (slots.bindings_openScope ▸ hs) hnext.openScope hmax stack w)
  | .call hf hes => call_simulates hp hs (.call hf hes) hcode hat w
  | .print hes => call_simulates hp hs (.print hes) hcode hat w
  | .println hes => call_simulates hp hs (.println hes) hcode hat w
  | .empty => by
    cases hcode
    exact .done fun cfg hcfg => ⟨locals, ⟨hs, rfl⟩, hcfg⟩

theorem stmts_simulates {c : Setting} {n : Nat} {G : Globals} {owner : String} {r : Routine}
    {callers : List Frame} {call : Reference.Call} (hp : Place c n G owner r callers call)
    {L L' : Rules.Locals} {body : List Typed.Stmt} (h : StmtTypes G L body L')
    {slots slots' : Slots} {base : Nat} {code : Code}
    (hcode : stmtsCode owner slots base body = .ok (code, slots')) (hat : CodeAt r base code)
    {first : Nat} {locals : Array Value} {ρ : Reference.Locals}
    (hs : Stored first locals L slots.names.bindings ρ) (hnext : slots.Counts first)
    (hmax : slots'.maxLocals.toNat ≤ locals.size) (stack : List Value) (w : World) :
    Simulates c n (At G r base locals stack callers w) (Reference.stmts call n body ρ w)
      (Settled G r first locals.size L' slots' stack callers (base + code.length)) :=
  match h with
  | .nil => by
    cases hcode
    exact .done fun cfg hcfg => ⟨locals, ⟨hs, rfl⟩, hcfg⟩
  | .cons hfirst hrest => by
    obtain ⟨c', between, others, hc, hothers, rfl⟩ := stmtsCode_cons hcode
    have hgrows := stmtCode_grows _ hc
    have hgrows' := UInt16.le_iff_toNat_le.mp (stmtsCode_grows _ hothers).maxLocals
    rw [Reference.stmts]
    refine (stmt_simulates hp hfirst hc hat.left hs hnext (by omega) stack w).bind fun ρ w => ?_
    refine .assumingExists fun locals' => .assuming fun ⟨hs, hsize⟩ => ?_
    rw [← hsize] at hmax ⊢
    rw [List.length_append, ← Nat.add_assoc]
    exact stmts_simulates hp hrest hothers hat.right hs (hnext.grows hgrows) hmax stack w

end

end PZero.Simulation
