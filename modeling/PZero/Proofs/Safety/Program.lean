import PZero.Proofs.Lowering.Module
import PZero.Proofs.Safety.History
import PZero.Proofs.Safety.Run
import PZero.Proofs.Safety.Stmt

/-! # Compiled programs are type safe

All routines of a compiled module can be annotated, so that whatever operations are
done on a machine one after the other, none of them fails because of the code: they
divide by zero, meet a limit or have a text refused, and nothing else.
-/
namespace PZero.Safety
open Bytecode Machine Rules Lowering

/-! ## Compiled modules -/

section
variable {G : Globals} {p : Typed.Program} {m : Module}

theorem constantOf_type (v : Typed.Literal) : (constantOf v).type = valueType v := by
  cases v <;> rfl

theorem entryRoutine_descriptor {owner : String} {statement : Typed.Stmt} {r : Routine}
    (h : Lowering.entryRoutine owner statement = .ok r) : r.descriptor = .void := by
  obtain ⟨_, _, _, rfl⟩ := entryRoutine_eq h
  rfl

theorem provides_of_compiled (hp : ProgramType G p) (hc : compile p m.name = .ok m) :
    Provides m G := by
  constructor
  · intro name access t h
    obtain ⟨v, hmem, rfl⟩ := hp.value h
    refine ⟨fieldOf access name v, ?_, rfl, constantOf_type v⟩
    rw [compile_fields hc]
    exact mem_fields.mpr ⟨access, name, v, hmem, rfl⟩
  · intro name parameters result h
    rcases hp.function h with ⟨rfl, rfl, rfl⟩ | ⟨f, hf, rfl, htype⟩
    · obtain ⟨r, he, hr⟩ := routine?_entry hc
      exact ⟨r, hr, entryRoutine_descriptor he⟩
    · obtain ⟨r, hfr, hr⟩ := routine?_function hp hc hf
      obtain ⟨_, _, _, _, _, _, _, rfl⟩ := functionRoutine_eq htype hfr
      exact ⟨_, hr, rfl⟩

theorem provides_of_linked (hl : Linked G p m.name m) : Provides m G :=
  provides_of_compiled hl.program hl.compiled

theorem initializer_annotated : ∃ shape, Annotated m Lowering.initializer shape := by
  have hempty : Region m Lowering.initializer 0 0 (entryShape Lowering.initializer) ⟨[], []⟩ :=
    .nil (.refl _)
  exact hempty.annotated rfl (fits_operands ⟨rfl, rfl⟩) rfl rfl

theorem entry_annotated (hm : Provides m G) {statement : Typed.Stmt} {L : Locals}
    (h : StmtType G [] statement L) {r : Routine}
    (hr : Lowering.entryRoutine m.name statement = .ok r) (hsize : r.code.size < 2 ^ 32) :
    ∃ shape, Annotated m r shape := by
  obtain ⟨code, slots, hcode, heq⟩ := entryRoutine_eq hr
  have hat : CodeAt r 0 (code ++ [Instruction.ret]) := ⟨[], [], by rw [heq]; simp, rfl⟩
  have hlast : r.maxLocals = slots.maxLocals := by rw [heq]
  have hdescriptor : r.descriptor = .void := by rw [heq]
  have hend : r.code.size = 0 + code.length + 1 := by rw [heq]; simp
  have hlaid : Laid [.unit] (Slots.start 1) [] := ⟨.nil, rfl, Nat.le_refl _⟩
  have hbody := stmt_region hm hsize hlaid h hcode (hlast ▸ Nat.le_refl _) hat.left []
  have hone : 1 ≤ r.maxLocals.toNat := by
    rw [hlast]
    exact UInt16.le_iff_toNat_le.mp (stmtCode_grows _ hcode).maxLocals
  have hentry : (entryShape r).Narrows ⟨[], slotKinds [.unit] []⟩ := by
    refine ⟨rfl, List.replicate (r.maxLocals.toNat - 1) .unit, ?_⟩
    simp only [entryShape, hdescriptor, Descriptor.void, List.map_nil, List.nil_append,
      List.length_nil, Nat.sub_zero]
    rw [show r.maxLocals.toNat = 1 + (r.maxLocals.toNat - 1) by omega, List.replicate_add]
    simp [slotKinds]
  refine (hbody.widen hentry).annotated hat.right.head (fits_operands ⟨rfl, ?_⟩) rfl hend
  rw [hdescriptor]
  rfl

theorem bindAll_laid {reserved : List Kind} {parameters : List (String × FieldType)}
    {slots slots' : Slots} {L : Locals} (hl : Laid reserved slots L)
    (h : bindAll slots (parameters.map (·.1)) = .ok slots') :
    Laid reserved slots' (parameterLocals parameters ++ L) := by
  induction parameters generalizing slots L with
  | nil =>
    cases h
    exact hl
  | cons p parameters ih =>
    simp only [List.map_cons, bindAll, bind_eq_ok, Prod.exists] at h
    obtain ⟨slot, between, hb, h⟩ := h
    have hbound : Laid reserved between ((p.1, .readWrite, p.2) :: L) := hl.bind hb
    simpa [parameterLocals] using ih hbound h

theorem parameters_laid {parameters : List (String × FieldType)} {slots : Slots}
    (h : bindAll (Slots.start 0) (parameters.map (·.1)) = .ok slots) :
    Laid [] slots (parameterLocals parameters) := by
  have hstart : Laid [] (Slots.start 0) [] := ⟨.nil, rfl, Nat.le_refl _⟩
  simpa using bindAll_laid hstart h

theorem returnCode_fits {t : FieldType} {name : String} {i : Instruction} {r : Routine}
    (hi : returnCode name (typeOf t) = .ok i) (ht : r.descriptor.result = some t) (ks : List Kind)
    (pc : Nat) : Fits m r i ⟨[Kind.ofFieldType t], ks⟩ ⟨[], ks⟩ ∧ i.successors pc = [] := by
  have hkinds : r.descriptor.resultKinds = [Kind.ofFieldType t] := by
    rw [Descriptor.resultKinds, ht]
    rfl
  rcases returnCode_typeOf hi with ⟨rfl | rfl, rfl⟩ | ⟨rfl, rfl⟩
  · exact ⟨fits_operands ⟨rfl, hkinds⟩, rfl⟩
  · exact ⟨fits_operands ⟨rfl, hkinds⟩, rfl⟩
  · exact ⟨fits_operands ⟨rfl, hkinds⟩, rfl⟩

theorem function_annotated (hm : Provides m G) {f : Typed.Function} {ts : List FieldType}
    {t : Option FieldType} (h : FunctionType G f ts t) {r : Routine}
    (hr : functionRoutine m.name f = .ok r) (hsize : r.code.size < 2 ^ 32) :
    ∃ shape, Annotated m r shape := by
  obtain ⟨slots, body, slots', tail, hslots, hbody, htail, heq⟩ := functionRoutine_eq h hr
  have hat : CodeAt r 0 (body ++ tail) := ⟨[], [], by rw [heq]; simp, rfl⟩
  have hlast : r.maxLocals = slots'.maxLocals := by rw [heq]
  have hdescriptor : r.descriptor = ⟨ts, t⟩ := by rw [heq]
  have hcode : r.code.size = body.length + tail.length := by rw [heq]; simp
  cases h with
  | @intro name stmts result t L parameters hstmts hresult =>
    simp only [List.map_map] at hslots
    have hlaid := parameters_laid hslots
    have hregion := stmts_region hm hsize hlaid hstmts hbody (hlast ▸ Nat.le_refl _) hat.left []
    have hlaid' := stmtsCode_laid hlaid hstmts hbody
    have hentry : (entryShape r).Narrows ⟨[], slotKinds [] (parameterLocals parameters)⟩ := by
      refine ⟨rfl, List.replicate (r.maxLocals.toNat - parameters.length) .unit, ?_⟩
      simp [entryShape, hdescriptor, slotKinds, parameterLocals, Function.comp_def]
    cases hresult with
    | none =>
      cases htail
      refine (hregion.widen hentry).annotated hat.right.head (fits_operands ⟨rfl, ?_⟩) rfl ?_
      · rw [hdescriptor]
        rfl
      · rw [hcode, Nat.zero_add]
        rfl
    | some he =>
      obtain ⟨c, i, hc, hi, rfl⟩ := resultCode_some htail
      rw [he.ty_eq] at hi
      have hplace : 0 + body.length = body.length := Nat.zero_add _
      have hat' := hat.right
      rw [hplace] at hat' hregion
      have hexpr := expr_region hm hsize hlaid' he hc hat'.left []
      obtain ⟨hfits, hsucc⟩ :=
        returnCode_fits hi (by rw [hdescriptor]) (slotKinds [] L) (body.length + c.length)
      refine ((hregion.widen hentry).append hexpr).annotated hat'.right.head hfits hsucc ?_
      rw [hcode, List.length_append, Nat.add_assoc]
      rfl

/-- Whatever the functions are called, each routine can be annotated. -/
theorem annotated_of_compiled (hp : ProgramType G p) (hc : compile p m.name = .ok m)
    (hsize : ∀ r ∈ m.routines, r.code.size < 2 ^ 32) :
    ∀ r ∈ m.routines, ∃ shape, Annotated m r shape := by
  have hm := provides_of_compiled hp hc
  intro r hr
  rcases routine_cases hc hr with rfl | he | ⟨f, hf, hfr⟩
  · exact initializer_annotated
  · obtain ⟨L, hs⟩ := hp.statement
    exact entry_annotated hm hs he (hsize r hr)
  · obtain ⟨ts, t, htype⟩ := hp.declared hf
    exact function_annotated hm htype hfr (hsize r hr)

theorem verified_of_linked (hl : Linked G p m.name m) : Verified m := by
  refine ⟨nodup_fields hl.program hl.compiled, ?_, ⟨_, hl.routine?_initializer, rfl⟩, ?_,
    annotated_of_compiled hl.program hl.compiled hl.size⟩
  · intro field hf
    rw [compile_fields hl.compiled] at hf
    obtain ⟨access, name, v, -, rfl⟩ := mem_fields.mp hf
    rfl
  · obtain ⟨r, -, he, hr⟩ := hl.entry
    exact ⟨r, hr, entryRoutine_descriptor he⟩

end

/-! ## Operations one after the other -/

namespace Operation

/-- A call has to name a routine and to pass values of the kinds of its parameters. -/
def Proper (m : Module) : Operation → Prop
  | run .. => True
  | call name arguments .. => ∃ r ∈ m.routines, r.name = name ∧
      arguments.map Value.kind = r.descriptor.parameters.map Kind.ofFieldType

/-- The results of an operation that succeeds. -/
def Returns (m : Module) : Operation → Option Value → Prop
  | run .., v => v = none
  | call name .., v => ∀ r ∈ m.routines, r.name = name →
      v.map Value.kind = r.descriptor.result.map Kind.ofFieldType

/-- The operation succeeded with one of its results or failed in a permitted way, and every field
has a value of its kind. -/
structure Sound (m : Module) (operation : Operation) (report : Report) : Prop where
  result : Safe (operation.Returns m) report.result
  statics : StaticsFit m report.machine.statics

end Operation

theorem toList_map_kind {v : Option Value} {t : Option FieldType}
    (h : v.toList.map Value.kind = (t.map Kind.ofFieldType).toList) :
    v.map Value.kind = t.map Kind.ofFieldType := by
  cases v <;> cases t <;> simp_all

/-- One operation on a machine that is fit for it. -/
theorem apply_sound {m : Module} (hm : Verified m) (hnames : (m.routines.map (·.name)).Nodup)
    {machine : Machine} (h : MachineFits m machine) {operation : Operation}
    (hproper : operation.Proper m) {report : Report}
    (happly : operation.apply machine = some report) :
    operation.Sound m report ∧ MachineFits m report.machine := by
  cases operation with
  | run sink fuel =>
    have hfits := whole_run_fits hm h happly
    refine ⟨⟨hfits.result.mono fun v hv => ?_, hfits.machine.statics⟩, hfits.machine⟩
    cases v with
    | none => rfl
    | some v => cases hv
  | call name arguments sink fuel =>
    obtain ⟨r, hmem, rfl, harguments⟩ := hproper
    have hr : routine? m r.name = some r := (routine?_eq_some_iff hnames).mpr ⟨hmem, rfl⟩
    have hfits := call_fits hm h hr (entrySlots_of_kinds harguments) happly
    refine ⟨⟨hfits.result.mono fun v hv r' hmem' hname => ?_, hfits.machine.statics⟩, hfits.machine⟩
    obtain rfl := List.inj_on_of_nodup_map hnames hmem' hmem hname
    exact toList_map_kind hv

theorem history_sound_of_fits {m : Module} (hm : Verified m)
    (hnames : (m.routines.map (·.name)).Nodup) {operations : List Operation}
    (hproper : ∀ operation ∈ operations, operation.Proper m) {machine : Machine}
    (h : MachineFits m machine) :
    ∀ entry ∈ history machine operations, entry.1.Sound m entry.2 := by
  have hlog : ∀ entry ∈ log machine operations, entry.operation.Sound m entry.report :=
    forall_mem_log (I := MachineFits m)
      (fun _ _ ho _ hfits happly => apply_sound hm hnames hfits (hproper _ ho) happly) h
  intro entry hmem
  rw [history_eq_map_log] at hmem
  obtain ⟨logged, hlogged, rfl⟩ := List.mem_map.mp hmem
  exact hlog logged hlogged

/-- Type safety of compiled programs. Whatever is done with a machine of an accepted program without
a function named like the initializer, each operation that returns succeeds with a result of its
type, divides by zero, meets a limit or has a text refused, and the fields keep their types. -/
theorem history_sound {p : Surface.Program} {name : String} {m : Module}
    (hcompile : Compiler.compile p name = .ok m) (hinit : ¬ DeclaresFunction p "<init>")
    (hsize : ∀ r ∈ m.routines, r.code.size < 2 ^ 32) (options : Options)
    (operations : List Operation) (hproper : ∀ operation ∈ operations, operation.Proper m) :
    ∀ entry ∈ history (ofModule m options) operations, entry.1.Sound m entry.2 := by
  obtain ⟨t, G, -, hl⟩ := exists_linked hcompile hinit hsize
  obtain rfl := hl.module_name
  have hm := verified_of_linked hl
  have hnames := nodup_routines hl.program hl.compiled hl.ne_init
  exact history_sound_of_fits hm hnames hproper (ofModule_fits hm options)

/-- Divides by a global name that is zero until the program has run. -/
def sharing : Surface.Program where
  declarations :=
    [.global .readWrite ⟨"n", {}⟩ (.value (.int "0" {})),
      .function ⟨"share", {}⟩ [(⟨"all", {}⟩, .bool), (⟨"x", {}⟩, .int)] []
        (some (.int, .ternary (.name ⟨"all", {}⟩) (.name ⟨"x", {}⟩)
          (.binary .divide (.name ⟨"x", {}⟩) (.name ⟨"n", {}⟩)))),
      .function ⟨"main", {}⟩ []
        [.assign ⟨"n", {}⟩ (.literal (.int "2" {})),
          .call ⟨"print", {}⟩ [.call ⟨"share", {}⟩
            [.literal (.bool false {}), .literal (.int "8" {})] {}]]
        none]

def sharingModule : Module where
  name := "demo"
  fields := [⟨"n", false, .int, .int 0⟩]
  routines :=
    [Lowering.initializer,
      ⟨"share", ⟨[.bool, .int], some .int⟩, 2, #[.iload 0, .ifZero .eq 4, .iload 1, .goto 7,
        .iload 1, .getStatic ⟨"demo", "n", .int⟩, .idiv, .iret]⟩,
      ⟨"main", .void, 1, #[.iconst 2, .putStatic ⟨"demo", "n", .int⟩, .getStdout, .iconst 0,
        .iconst 8, .invoke ⟨"demo", "share", ⟨[.bool, .int], some .int⟩⟩, .print .int, .ret]⟩]

def sharingOperations : List Operation :=
  [.call "share" [.int 0, .int 8] {} 20, .run {} 40, .call "share" [.int 0, .int 8] {} 20,
    .call "share" [.int 7, .int 8] {} 20]

theorem history_sound_sharing :
    Compiler.compile sharing "demo" = .ok sharingModule ∧ ¬ DeclaresFunction sharing "<init>" ∧
      (∀ r ∈ sharingModule.routines, r.code.size < 2 ^ 32) ∧
      (∀ operation ∈ sharingOperations, operation.Proper sharingModule) ∧
      (history (ofModule sharingModule {}) sharingOperations).map (fun entry => entry.2.result) =
        [.error (.fault "share" 6 .divisionByZero), .ok none, .ok (some (.int 4)),
          .ok (some (.int 8))] ∧
      ∀ entry ∈ history (ofModule sharingModule {}) sharingOperations,
        entry.1.Sound sharingModule entry.2 := by
  have hinit : ¬ DeclaresFunction sharing "<init>" := by
    rintro ⟨i, parameters, body, result, hmem, hname⟩
    simp [sharing] at hmem
    rcases hmem with h | h <;> simp [h.1] at hname
  have hproper : ∀ operation ∈ sharingOperations, operation.Proper sharingModule := by
    simp [sharingOperations, sharingModule, Operation.Proper, Lowering.initializer, Value.kind,
      Kind.ofFieldType]
  have hcompile : Compiler.compile sharing "demo" = .ok sharingModule := by decide +kernel
  refine ⟨hcompile, hinit, by decide, hproper, by decide +kernel, ?_⟩
  exact history_sound hcompile hinit (by decide) {} sharingOperations hproper

end PZero.Safety
