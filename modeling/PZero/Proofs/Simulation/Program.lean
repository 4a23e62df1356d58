import PZero.Proofs.Machine.Limits
import PZero.Proofs.Simulation.Stmt

/-! # Programs are simulated

A call enters a routine with the arguments in its first slots, carries out its body
and returns to the instruction behind the call. Each activation takes one of the
calls that the reference semantics has fuel for, so that a limit on active routines
above the fuel is never met.
-/
namespace PZero.Simulation
open Bytecode Machine Rules Lowering
open Typed (Literal)
open Reference (World)

/-! ## Parameters -/

theorem bindAll_stored {first : Nat} {locals : Array Value} {L : Rules.Locals}
    {slots slots' : Slots} {ρ : Reference.Locals} {parameters : List (String × FieldType)}
    {arguments : List Literal} (h : bindAll slots (parameters.map (·.1)) = .ok slots')
    (hs : Stored first locals L slots.names.bindings ρ) (hnext : slots.Counts first)
    (ht : arguments.map valueType = parameters.map (·.2))
    (hlocals : ∀ i v, arguments[i]? = some v → locals[slots.next.toNat + i]? = some (encode v)) :
    Stored first locals (parameterLocals parameters ++ L) slots'.names.bindings
      (((parameters.map (·.1)).zip arguments).reverse ++ ρ) := by
  induction parameters generalizing slots arguments L ρ with
  | nil =>
    cases h
    exact hs
  | cons p parameters ih =>
    cases arguments with
    | nil => cases ht
    | cons v arguments =>
      simp only [List.map_cons, List.cons.injEq] at ht
      simp only [List.map_cons, bindAll, bind_eq_ok, Prod.exists] at h
      obtain ⟨slot, between, hbind, h⟩ := h
      obtain ⟨rfl, hnames, hslot, -, hgrows⟩ := Slots.bind_eq hbind
      have hload : locals[slots.next.toNat]? = some (encode v) := hlocals 0 v rfl
      have hcons : Stored first locals ((p.1, .readWrite, p.2) :: L) between.names.bindings
          ((p.1, v) :: ρ) := hnames ▸ .cons hs hnext ht.1 hload
      have hlast := ih h hcons (hnext.grows hgrows) ht.2 fun i u hu => by
        rw [hslot, Nat.add_right_comm, Nat.add_assoc]
        exact hlocals (i + 1) u hu
      simpa [parameterLocals] using hlast

/-- On entry the first slots hold the arguments. -/
theorem enter_stored (r : Routine) {parameters : List (String × FieldType)}
    {arguments : List Literal} {slots : Slots}
    (h : bindAll (Slots.start 0) (parameters.map (·.1)) = .ok slots)
    (ht : arguments.map valueType = parameters.map (·.2)) :
    Stored 0 (Frame.enter r (arguments.map encode)).locals (parameterLocals parameters)
      slots.names.bindings ((parameters.map (·.1)).zip arguments).reverse := by
  have hstored : Stored 0 (Frame.enter r (arguments.map encode)).locals
      (parameterLocals parameters ++ []) slots.names.bindings
      (((parameters.map (·.1)).zip arguments).reverse ++ []) := by
    refine bindAll_stored h .nil rfl ht fun i v hv => ?_
    have hi : i < arguments.length := (List.getElem?_eq_some_iff.mp hv).1
    have hzero : (Slots.start 0).next.toNat + i = i := Nat.zero_add i
    rw [hzero, Frame.enter, Array.getElem?_append_left (by simpa using hi)]
    simp [hv]
  simpa only [List.append_nil] using hstored

/-! ## Returning -/

/-- The instruction that leaves a routine with the given result. -/
inductive Returns : Instruction → Option Literal → Prop
  | none : Returns .ret none
  | int {n} : Returns .iret (some (.int n))
  | bool {b} : Returns .iret (some (.bool b))
  | float {x} : Returns .fret (some (.float x))

/-- A routine is about to return a result. -/
def Leaving (G : Globals) (callers : List Frame) (v : Option Literal) (w : World) (cfg : Config) :
    Prop :=
  ∃ r pc locals i, (r.code[pc]? = some i ∧ Returns i v) ∧
    At G r pc locals (v.map encode).toList callers w cfg

section
variable {c : Setting} {n : Nat} {G : Globals} {owner : String} {callers : List Frame}
  {call : Reference.Call} {w : World}

theorem step_leaving (hc : Generous c) {v : Option Literal} {cfg : Config}
    (h : Leaving G callers v w cfg) :
    ∃ s, Holds G w s ∧ cfg.step c = Config.proceed c callers s (.leave (v.map encode)) := by
  obtain ⟨r, pc, locals, i, ⟨hi, hreturns⟩, last, s, rfl, hs⟩ := h
  refine ⟨{ s with steps := s.steps + 1 }, ⟨hs.output, hs.globals⟩, step_of_perform hc hi last s ?_⟩
  cases hreturns <;> rfl

theorem returnCode_returns {name : String} {v : Literal} {i : Instruction}
    (h : returnCode name (typeOf (valueType v)) = .ok i) : Returns i (some v) := by
  rcases returnCode_typeOf h with ⟨ht, rfl⟩ | ⟨ht, rfl⟩
  · cases v with
    | int => exact .int
    | bool => exact .bool
    | float | string => rcases ht with ht | ht <;> cases ht
  · cases v with
    | float => exact .float
    | int | bool | string => cases ht

/-! ## Bodies of routines -/

theorem activation_simulates {f : Typed.Function} {r : Routine} {ts : List FieldType}
    {t : Option FieldType} (hf : FunctionType G f ts t) (hr : functionRoutine owner f = .ok r)
    (hp : Place c n G owner r callers call) {arguments : List Literal}
    (ht : arguments.map valueType = ts) :
    Simulates c n
      (At G r 0 (Frame.enter r (arguments.map encode)).locals [] callers w)
      (Reference.activation call n f arguments w)
      (fun v w cfg => v.map valueType = t ∧ Leaving G callers v w cfg) := by
  obtain ⟨slots, body, slots', tail, hslots, hbody, htail, heq⟩ := functionRoutine_eq hf hr
  have hmax := size_enter r (arguments.map encode)
  have hat : CodeAt r 0 (body ++ tail) := ⟨[], [], by rw [heq]; simp, rfl⟩
  have hlast : r.maxLocals = slots'.maxLocals := by rw [heq]
  rw [hlast] at hmax
  cases hf with
  | @intro name stmts result t L parameters hstmts hresult =>
    simp only [List.map_map] at hslots
    have hnext : slots.Counts 0 := Slots.Counts.grows (s := .start 0) rfl (bindAll_grows hslots)
    have hbody := stmts_simulates hp hstmts hbody hat.left (enter_stored r hslots ht) hnext hmax [] w
    simp only [Reference.activation, List.map_map]
    refine hbody.bind fun ρ w => .assumingExists fun locals => .assuming fun ⟨hs, _⟩ => ?_
    cases hresult with
    | none =>
      cases htail
      exact .done fun cfg hcfg => ⟨rfl, r, _, locals, _, ⟨hat.right.head, .none⟩, hcfg⟩
    | some he =>
      obtain ⟨c', i, hc, hi, rfl⟩ := resultCode_some htail
      rw [he.ty_eq] at hi
      have htail := hat.right
      rw [Nat.zero_add] at htail ⊢
      refine (expr_simulates hp hs he hc htail.left [] w).bind fun v w => .assuming fun hv => ?_
      subst hv
      exact .done fun cfg hcfg =>
        ⟨rfl, r, _, locals, i, ⟨htail.right.head, returnCode_returns hi⟩, hcfg⟩

theorem entry_simulates {statement : Typed.Stmt} {r : Routine} {L : Rules.Locals}
    (hs : StmtType G [] statement L) (hr : entryRoutine owner statement = .ok r)
    (hp : Place c n G owner r callers call) {locals : Array Value}
    (hsize : r.maxLocals.toNat ≤ locals.size) :
    Simulates c n (At G r 0 locals [] callers w)
      ((Reference.stmt call n statement [] w).bind fun _ w => .done none w)
      (fun v w cfg => v = none ∧ Leaving G callers v w cfg) := by
  obtain ⟨code, slots, hcode, rfl⟩ := entryRoutine_eq hr
  have hat : CodeAt ⟨"main", .void, slots.maxLocals, (code ++ [Instruction.ret]).toArray⟩ 0
      (code ++ [.ret]) := ⟨[], [], by simp, rfl⟩
  have hbody := stmt_simulates hp hs hcode hat.left .nil rfl hsize [] w
  refine hbody.bind fun ρ w => .assumingExists fun locals' => .assuming fun _ => ?_
  exact .done fun cfg hcfg => ⟨rfl, _, _, locals', _, ⟨hat.right.head, .none⟩, hcfg⟩

end

theorem leaving_simulates {c : Setting} {n : Nat} {G : Globals} {r : Routine} {pc : Nat}
    {locals : Array Value} {stack : List Value} {callers : List Frame} {t : Option FieldType}
    (hc : Generous c) (v : Option Literal) (w : World) :
    Simulates c n (fun cfg => v.map valueType = t ∧
        Leaving G (⟨r, pc + 1, pc, locals, stack⟩ :: callers) v w cfg) (.done v w)
      (fun v w cfg => v.map valueType = t ∧
        At G r (pc + 1) locals ((v.map encode).toList ++ stack) callers w cfg) := by
  refine .assuming fun hv => ?_
  refine (Simulates.of_step (.done fun _ h => h) fun cfg hcfg => ?_).le (Nat.le_succ n)
  obtain ⟨s, hs, hstep⟩ := step_leaving hc hcfg
  refine ⟨_, hstep, hv, pc, s, ?_, hs⟩
  cases v <;> rfl

/-! ## Calls -/

theorem findSome?_eq_of_unique {α β : Type} {f : α → Option β} {l : List α} {a : α} {b : β}
    (ha : a ∈ l) (hf : f a = some b) (hu : ∀ a' ∈ l, ∀ b', f a' = some b' → b' = b) :
    l.findSome? f = some b := by
  cases h : l.findSome? f with
  | none =>
    rw [List.findSome?_eq_none_iff] at h
    exact absurd (h a ha) (by simp [hf])
  | some b' =>
    obtain ⟨a', ha', hb'⟩ := List.exists_of_findSome?_eq_some h
    rw [hu a' ha' b' hb']

section
variable {G : Globals} {p : Typed.Program} {owner : String} {m : Module}

theorem function?_eq_some (hp : ProgramType G p) {f : Typed.Function}
    (hf : .function f ∈ p.declarations) : Reference.function? p f.name = some f := by
  refine findSome?_eq_of_unique hf (by simp) ?_
  intro d hd f' hd'
  cases d with
  | global => cases hd'
  | function g =>
    simp only [Option.ite_none_right_eq_some, Option.some.injEq] at hd'
    obtain ⟨hname, rfl⟩ := hd'
    exact Typed.Decl.function.inj (List.inj_on_of_nodup_map hp.nodup hd hf hname)

/-- The routine of a function carries out its call, when calls inside it do as well. -/
theorem routine_simulates (hl : Linked G p owner m) {name : String} {ts : List FieldType}
    {t : Option FieldType} (h : G.lookup name = some (.function ts t)) :
    ∃ r, routine? m name = some r ∧ ∀ {c : Setting} {k : Nat} {callers : List Frame},
      Generous c → c.module = m → Invokes c (k + 1) G owner callers (Reference.call p k) →
      ∀ {arguments : List Literal}, arguments.map valueType = ts → ∀ w,
      Simulates c (k + 1) (At G r 0 (Frame.enter r (arguments.map encode)).locals [] callers w)
        (Reference.call p (k + 1) name arguments w)
        (fun v w cfg => v.map valueType = t ∧ Leaving G callers v w cfg) := by
  rcases hl.program.function h with ⟨rfl, rfl, rfl⟩ | ⟨f, hf, rfl, htype⟩
  · obtain ⟨r, hmem, he, hr⟩ := hl.entry
    refine ⟨r, hr, fun hc hm hi arguments _ w => ?_⟩
    obtain ⟨L, hs⟩ := hl.program.statement
    have hp : Place _ _ G owner r _ _ := ⟨hc, hl.size r hmem, hm ▸ hl.module_name, hi⟩
    have hentry := entry_simulates (w := w) hs he hp (size_enter r (arguments.map encode))
    exact hentry.mono (fun _ h => h) fun v w cfg h => ⟨by rw [h.1]; rfl, h.2⟩
  · obtain ⟨r, hmem, hfr, hr⟩ := hl.function hf
    refine ⟨r, hr, fun hc hm hi arguments ht w => ?_⟩
    have hp : Place _ _ G owner r _ _ := ⟨hc, hl.size r hmem, hm ▸ hl.module_name, hi⟩
    have hname : f.name ≠ "main" := hl.program.ne_main _ hf
    rw [Reference.call, if_neg hname, function?_eq_some hl.program hf]
    exact activation_simulates htype hfr hp ht

theorem perform_invoke {c : Setting} {r callee : Routine} {pc : Nat} {locals : Array Value}
    {stack : List Value} {name : String} {ts : List FieldType} {t : Option FieldType}
    {arguments : List Value} (hcallee : routine? c.module name = some callee)
    (hl : arguments.length = ts.length) (s : Store) :
    perform c ⟨r, pc + 1, pc, locals, arguments.reverse ++ stack⟩ s
        (.invoke ⟨c.module.name, name, ⟨ts, t⟩⟩) =
      .ok (.call callee arguments ⟨r, pc + 1, pc, locals, stack⟩) := by
  have hlength : ts.length ≤ (arguments.reverse ++ stack).length := by
    rw [List.length_append, List.length_reverse]
    omega
  have htake : (arguments.reverse ++ stack).take ts.length = arguments.reverse := by
    rw [← hl, ← List.length_reverse, List.take_left]
  have hdrop : (arguments.reverse ++ stack).drop ts.length = stack := by
    rw [← hl, ← List.length_reverse, List.drop_left]
  simp only [perform, Setting.callee, beq_self_eq_true, if_true, hcallee, Frame.popMany,
    if_pos hlength, htake, hdrop, List.reverse_reverse]
  rfl

theorem step_invoke {c : Setting} {r callee : Routine} {pc : Nat} {locals : Array Value}
    {stack : List Value} {callers : List Frame} {w : World} {name : String} {ts : List FieldType}
    {t : Option FieldType} {arguments : List Value} (hc : Generous c)
    (hi : r.code[pc]? = some (.invoke ⟨c.module.name, name, ⟨ts, t⟩⟩))
    (hcallee : routine? c.module name = some callee) (hl : arguments.length = ts.length)
    (hdepth : callers.length + 1 < c.options.maxCallDepth) {cfg : Config}
    (h : At G r pc locals (arguments.reverse ++ stack) callers w cfg) :
    ∃ cfg', cfg.step c = .running cfg' ∧ At G callee 0 (Frame.enter callee arguments).locals []
      (⟨r, pc + 1, pc, locals, stack⟩ :: callers) w cfg' := by
  obtain ⟨last, s, rfl, hs⟩ := h
  refine ⟨⟨Frame.enter callee arguments, ⟨r, pc + 1, pc, locals, stack⟩ :: callers,
    { s with steps := s.steps + 1 }⟩, ?_, 0, _, rfl, hs.output, hs.globals⟩
  rw [step_of_perform hc hi last s (perform_invoke hcallee hl _), Config.proceed,
    if_neg (by omega)]

/-- With room for as many activations as there is fuel, calls are simulated. -/
theorem invokes_call (hl : Linked G p owner m) {c : Setting} (hc : Generous c)
    (hm : c.module = m) (k : Nat) (callers : List Frame)
    (hdepth : callers.length + k + 1 < c.options.maxCallDepth) :
    Invokes c (k + 1) G owner callers (Reference.call p k) := by
  induction k generalizing callers with
  | zero =>
    intro name ts t h r pc arguments hi ht locals stack w
    obtain ⟨callee, hcallee, -⟩ := routine_simulates hl h
    rw [← hl.module_name, ← hm] at hi
    have hargs : (arguments.map encode).length = ts.length := by simpa using congrArg List.length ht
    refine Simulates.of_step (fun _ _ => rfl) fun cfg hcfg =>
      step_invoke hc hi (hm ▸ hcallee) hargs (by omega) hcfg
  | succ k ih =>
    intro name ts t h r pc arguments hi ht locals stack w
    obtain ⟨callee, hcallee, hbody⟩ := routine_simulates hl h
    rw [← hl.module_name, ← hm] at hi
    have hargs : (arguments.map encode).length = ts.length := by simpa using congrArg List.length ht
    have hinner : Invokes c (k + 1) G owner (⟨r, pc + 1, pc, locals, stack⟩ :: callers)
        (Reference.call p k) := ih _ (by rw [List.length_cons]; omega)
    have hreturn := (hbody hc hm hinner ht w).bind (leaving_simulates hc)
    rw [bind_done] at hreturn
    exact hreturn.of_step fun cfg hcfg => step_invoke hc hi (hm ▸ hcallee) hargs (by omega) hcfg

end
end PZero.Simulation
