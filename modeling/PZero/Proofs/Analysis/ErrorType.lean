import PZero.Proofs.Analysis.ShownTypes
import PZero.Proofs.Checker.Inside

/-! # The error type is never news

An expression gets the error type only where a diagnostic is reported or a local name
has the error type already, and a local name gets it only from such an expression. So
whenever the table of names has the error type, something was reported before. No
diagnostic shows the error type itself.
-/
namespace PZero

/-! ## Local names -/

namespace Scope
variable {α : Type}

/-- The frame that is there from the beginning. -/
def outermost (s : Scope α) : List (String × α) :=
  (s.current :: s.enclosing).getLast (List.cons_ne_nil _ _)

/-- What a name stands for inside of the outermost frame. -/
def local? (s : Scope α) (name : String) : Option α :=
  (s.current :: s.enclosing).dropLast.findSome? (·.lookup name)

theorem get?_eq_or (s : Scope α) (name : String) :
    s.get? name = (s.local? name).or (s.outermost.lookup name) := by
  have hframes : s.current :: s.enclosing =
      (s.current :: s.enclosing).dropLast ++ [s.outermost] :=
    (List.dropLast_append_getLast (List.cons_ne_nil _ _)).symm
  rw [get?, hframes, List.findSome?_append, List.findSome?_singleton]
  rfl

@[simp] theorem outermost_openScope (s : Scope α) : s.openScope.outermost = s.outermost :=
  List.getLast_cons (List.cons_ne_nil _ _)

theorem mem_outermost_insert {s : Scope α} {name : String} {a : α} {entry : String × α}
    (h : entry ∈ (s.insert name a).outermost) :
    entry = (name, a) ∧ s.enclosing = [] ∨ entry ∈ s.outermost := by
  obtain ⟨current, enclosing⟩ := s
  cases enclosing with
  | nil =>
    rcases List.mem_cons.mp h with h | h
    · exact .inl ⟨h, rfl⟩
    · exact .inr h
  | cons frame rest =>
    rw [outermost, insert, List.getLast_cons (List.cons_ne_nil frame rest)] at h
    rw [outermost, List.getLast_cons (List.cons_ne_nil frame rest)]
    exact .inr h

theorem outermost_closeScope (s : Scope α) : s.closeScope.outermost = s.outermost := by
  obtain ⟨current, enclosing⟩ := s
  cases enclosing with
  | nil => rfl
  | cons frame rest => exact (List.getLast_cons (List.cons_ne_nil frame rest)).symm

theorem bindings_closeScope_subset (s : Scope α) : s.closeScope.bindings ⊆ s.bindings := by
  obtain ⟨current, enclosing⟩ := s
  cases enclosing with
  | nil => exact List.Subset.refl _
  | cons frame rest => exact List.subset_append_right current _

end Scope

namespace Surface

mutual

/-- The names that an expression uses as values. -/
def Expr.references : Expr → List String
  | .ternary guard yes no => guard.references ++ yes.references ++ no.references
  | .binary _ left right => left.references ++ right.references
  | .unary _ _ operand => operand.references
  | .call _ arguments _ => exprsReferences arguments
  | .name identifier => [identifier.name]
  | .paren _ inner => inner.references
  | .literal _ => []

def exprsReferences : List Expr → List String
  | [] => []
  | e :: rest => e.references ++ exprsReferences rest

end

end Surface

namespace Analysis
open Surface (Identifier)

/-- The type of what a name holds. -/
def Binding.type? : Binding → Option Ty
  | const t | var t => some t
  | function .. => none

/-- The table has a value of the error type somewhere. -/
def HoldsError (env : Env) : Prop := ∃ entry ∈ env.bindings, entry.2.type? = some .error

/-- An expression uses a local name of the error type. -/
def RefersToError (env : Env) (e : Surface.Expr) : Prop :=
  ∃ name ∈ e.references, ∃ b, env.local? name = some b ∧ b.type? = some .error

/-- Global names and the results of functions have types that were written or are those of
literals. -/
structure Proper (env : Env) : Prop where
  outermost : ∀ entry ∈ env.outermost, entry.2.type? ≠ some .error
  function : ∀ entry ∈ env.bindings, ∀ parameters, entry.2 ≠ .function parameters (some .error)

theorem mem_bindings_of_get? {env : Env} {name : String} {b : Binding} (h : env.get? name = some b) :
    (name, b) ∈ env.bindings := by
  rw [Scope.get?_eq_lookup, List.lookup_eq_some_iff] at h
  obtain ⟨before, after, heq, -⟩ := h
  rw [heq]
  exact List.mem_append_right _ List.mem_cons_self

theorem RefersToError.holdsError {env : Env} {e : Surface.Expr} (h : RefersToError env e) :
    HoldsError env := by
  obtain ⟨name, -, b, hb, ht⟩ := h
  have hget : env.get? name = some b := by
    rw [Scope.get?_eq_or, hb, Option.some_or]
  exact ⟨_, mem_bindings_of_get? hget, ht⟩

section
variable {env : Env}

/-- A name of the error type is a local one. -/
theorem Proper.local? (h : Proper env) {name : String} {b : Binding} (hb : env.get? name = some b)
    (ht : b.type? = some .error) : env.local? name = some b := by
  rw [Scope.get?_eq_or, Option.or_eq_some_iff] at hb
  rcases hb with hb | ⟨-, hb⟩
  · exact hb
  · obtain ⟨before, after, heq, -⟩ := List.lookup_eq_some_iff.mp hb
    have hmem : (name, b) ∈ env.outermost := heq ▸ List.mem_append_right _ List.mem_cons_self
    exact (h.outermost _ hmem ht).elim

/-! ## Where the error type comes from -/

theorem resultType_eq_error {op : BinOp} {left right : Ty}
    (h : Typed.resultType op left right = .error) :
    left = .error ∨ right = .error ∨
      ∀ s u, diagnoseOperands op (s, left) (u, right) ≠ [] := by
  by_cases hl : left = .error
  · exact .inl hl
  by_cases hr : right = .error
  · exact .inr (.inl hr)
  refine .inr (.inr fun s u hnil => ?_)
  -- Operands that are accepted and compatible have one type, and the result has it too.
  simp only [diagnoseOperands, List.append_eq_nil_iff, ite_eq_left_iff, ite_eq_right_iff,
    List.cons_ne_nil, imp_false, Bool.not_eq_true, Bool.not_eq_false] at hnil
  obtain ⟨⟨hleft, hright⟩, hcompatible⟩ := hnil
  have heq : left = right := by
    simpa [hleft, hright, Ty.compatible, hl, hr] using hcompatible
  subst heq
  unfold Typed.resultType at h
  by_cases hop : op.isArithmetic = true
  · have hnumeric : left.isNumeric = true := by
      have hboolean : op.isBoolean = false := Rules.isBoolean_of_isArithmetic hop
      have hequality : op.isEquality = false := by cases op <;> first | rfl | cases hop
      simpa [acceptsOperand, hboolean, hequality, Ty.isError, hl] using hleft
    rw [if_pos hop, hnumeric, beq_self_eq_true, Bool.and_self, if_pos rfl] at h
    exact hl h
  · rw [if_neg hop] at h
    cases h

/-- What explains the type of a part explains that of the whole. -/
theorem explained_of_part {a e : Surface.Expr} (hd : diagnoseExpr env a ⊆ diagnoseExpr env e)
    (hr : a.references ⊆ e.references) (h : diagnoseExpr env a ≠ [] ∨ RefersToError env a) :
    diagnoseExpr env e ≠ [] ∨ RefersToError env e := by
  rcases h with h | ⟨name, hname, hb⟩
  · left
    intro hnil
    rw [hnil] at hd
    exact h (List.subset_nil.mp hd)
  · exact .inr ⟨name, hr hname, hb⟩

theorem error_explained (h : Proper env) (e : Surface.Expr) (ht : (typedExpr env e).ty = .error) :
    diagnoseExpr env e ≠ [] ∨ RefersToError env e := by
  match e with
  | .ternary guard yes no =>
    exact explained_of_part (fun d hd => by simp [diagnoseExpr, hd])
      (fun name hname => by simp [Surface.Expr.references, hname]) (error_explained h yes ht)
  | .binary op left right =>
    rcases resultType_eq_error ht with hl | hr | hd
    · exact explained_of_part (fun d hd => by simp [diagnoseExpr, hd])
        (fun name hname => by simp [Surface.Expr.references, hname]) (error_explained h left hl)
    · exact explained_of_part (fun d hd => by simp [diagnoseExpr, hd])
        (fun name hname => by simp [Surface.Expr.references, hname]) (error_explained h right hr)
    · exact .inl fun hnil => hd _ _ (List.append_eq_nil_iff.mp hnil).2
  | .unary s op operand =>
    by_cases hneg : Rules.IsNegative op operand
    · obtain ⟨text, span, rfl, rfl⟩ := hneg.inv
      cases ht
    · rw [Rules.typedExpr_unary s hneg] at ht
      have ho : (typedExpr env operand).ty = .error := by
        cases op with
        | not => cases ht
        | minus => exact ht
        | plus => exact ht
      have hdiagnose : diagnoseExpr env operand ⊆ diagnoseExpr env (.unary s op operand) := by
        rw [Rules.diagnoseExpr_unary s hneg]
        exact List.subset_append_left _ _
      exact explained_of_part hdiagnose (List.Subset.refl operand.references)
        (error_explained h operand ho)
  | .call callee arguments close =>
    simp only [typedExpr, diagnoseExpr] at ht ⊢
    cases hb : env.get? callee.name with
    | none => exact .inl (List.cons_ne_nil _ _)
    | some b =>
      cases b with
      | const t => exact .inl (List.cons_ne_nil _ _)
      | var t => exact .inl (List.cons_ne_nil _ _)
      | function parameters result =>
        cases result with
        | none => exact .inl (by simp)
        | some t =>
          rw [hb] at ht
          obtain rfl : t = .error := ht
          exact (h.function _ (mem_bindings_of_get? hb) parameters rfl).elim
  | .name identifier =>
    simp only [typedExpr, Typed.Expr.ty, nameType, diagnoseExpr, diagnoseName] at ht ⊢
    cases hb : env.get? identifier.name with
    | none => exact .inl (List.cons_ne_nil _ _)
    | some b =>
      rw [hb] at ht
      cases b with
      | const t =>
        obtain rfl : t = .error := ht
        exact .inr ⟨identifier.name, List.mem_singleton_self _, _, h.local? hb rfl, rfl⟩
      | var t =>
        obtain rfl : t = .error := ht
        exact .inr ⟨identifier.name, List.mem_singleton_self _, _, h.local? hb rfl, rfl⟩
      | function parameters result => exact .inl (List.cons_ne_nil _ _)
  | .paren s inner => exact error_explained h inner ht
  | .literal v => cases v <;> cases ht

end

/-! ## Points of a run -/

/-- What holds of the names and the diagnostics at every point. -/
structure Sound (σ : State) : Prop where
  proper : Proper σ.env
  held : HoldsError σ.env → σ.reported ≠ []
  unerring : Unerring σ.reported

namespace Sound
variable {σ : State}

theorem report (h : Sound σ) {d : Diagnostic} (hd : Ty.error ∉ d.types) :
    Sound (σ.after (.report d)) where
  proper := h.proper
  held := fun _ => List.append_ne_nil_of_right_ne_nil _ (List.cons_ne_nil _ _)
  unerring := .append h.unerring (.singleton hd)

theorem openScope (h : Sound σ) : Sound (σ.after .openScope) where
  proper :=
    { outermost := by
        rw [State.after, Scope.outermost_openScope]
        exact h.proper.outermost
      function := by
        rw [State.after, Scope.bindings_openScope]
        exact h.proper.function }
  held := by
    rintro ⟨entry, hmem, ht⟩
    rw [State.after, Scope.bindings_openScope] at hmem
    exact h.held ⟨entry, hmem, ht⟩
  unerring := h.unerring

theorem closeScope (h : Sound σ) : Sound (σ.after .closeScope) where
  proper :=
    { outermost := by
        rw [State.after, Scope.outermost_closeScope]
        exact h.proper.outermost
      function := fun entry hmem =>
        h.proper.function entry (Scope.bindings_closeScope_subset _ hmem) }
  held := by
    rintro ⟨entry, hmem, ht⟩
    exact h.held ⟨entry, Scope.bindings_closeScope_subset _ hmem, ht⟩
  unerring := h.unerring

/-- A name can be bound to the error type inside of a scope and once something was reported. -/
theorem bind (h : Sound σ) (name : String) {b : Binding}
    (hfunction : ∀ parameters, b ≠ .function parameters (some .error))
    (hlocal : b.type? = some .error → σ.env.enclosing ≠ [] ∧ σ.reported ≠ []) :
    Sound (σ.after (.bind name b)) where
  proper :=
    { outermost := by
        intro entry hmem ht
        rcases Scope.mem_outermost_insert hmem with ⟨rfl, hglobal⟩ | hmem
        · exact (hlocal ht).1 hglobal
        · exact h.proper.outermost entry hmem ht
      function := by
        intro entry hmem
        rcases List.mem_cons.mp hmem with rfl | hmem
        · exact hfunction
        · exact h.proper.function entry hmem }
  held := by
    rintro ⟨entry, hmem, ht⟩
    rcases List.mem_cons.mp hmem with rfl | hmem
    · exact (hlocal ht).2
    · exact h.held ⟨entry, hmem, ht⟩
  unerring := h.unerring

end Sound

/-- Every point of a log is sound, and where an expression is taken up the log goes on with its
analysis. -/
def Safe (σ : State) : List Event → Prop
  | [] => Sound σ
  | event :: rest =>
    Sound σ ∧ (∀ e, event = .analyse e → exprLog σ.env e <+: event :: rest) ∧
      Safe (σ.after event) rest

namespace Safe
variable {σ σ' : State} {log log' : List Event}

theorem append (h : Safe σ log) (h' : Safe (replay σ log) log') : Safe σ (log ++ log') := by
  induction log generalizing σ with
  | nil => exact h'
  | cons event rest ih =>
    obtain ⟨hsound, hfollows, hrest⟩ := h
    refine ⟨hsound, fun e he => ?_, ih hrest h'⟩
    exact (hfollows e he).trans (List.prefix_append (event :: rest) log')

theorem sound_replay (h : Safe σ log) : Sound (replay σ log) := by
  induction log generalizing σ with
  | nil => exact h
  | cons event rest ih => exact ih h.2.2

theorem drop (h : Safe σ (log ++ log')) : Safe (replay σ log) log' := by
  induction log generalizing σ with
  | nil => exact h
  | cons event rest ih => exact ih h.2.2

theorem sound (h : Safe σ log) : Sound σ := by
  cases log with
  | nil => exact h
  | cons event rest => exact h.1

theorem andThen (h : Safe σ log) (hlog : replay σ log = σ') (h' : Sound σ' → Safe σ' log') :
    Safe σ (log ++ log') := by
  subst hlog
  exact h.append (h' h.sound_replay)

theorem reports (h : Sound σ) {ds : List Diagnostic} (hds : Unerring ds) :
    Safe σ (reports ds) := by
  induction ds generalizing σ with
  | nil => exact h
  | cons d ds ih =>
    have hd : Ty.error ∉ d.types := hds d List.mem_cons_self
    exact ⟨h, nofun, ih (h.report hd) fun d' hd' => hds d' (List.mem_cons_of_mem d hd')⟩

theorem scopeLog (h : Sound σ) (hlog : Safe (σ.after .openScope) log) : Safe σ (scopeLog log) :=
  ⟨h, nofun, hlog.append ⟨hlog.sound_replay, nofun, hlog.sound_replay.closeScope⟩⟩

/-- The parts of an expression are analysed before anything is reported about it. -/
theorem nodeLog {e : Surface.Expr} (hlog : Safe σ log)
    (he : exprLog σ.env e = nodeLog σ.env e log) : Safe σ (exprLog σ.env e) := by
  rw [he]
  refine ⟨hlog.sound, fun e' he' => ?_, ?_⟩
  · cases he'
    rw [he]
    exact List.prefix_rfl
  · exact hlog.append (reports hlog.sound_replay (unerring_complaints σ.env e))

theorem leafLog {e : Surface.Expr} (h : Sound σ)
    (he : exprLog σ.env e = Analysis.nodeLog σ.env e []) : Safe σ (exprLog σ.env e) := by
  have hparts : Safe σ [] := h
  exact hparts.nodeLog he

end Safe

/-! ## Expressions -/

mutual

theorem safe_exprLog {env : Env} {before : List Diagnostic} (h : Sound ⟨env, before⟩)
    (e : Surface.Expr) : Safe ⟨env, before⟩ (exprLog env e) := by
  match e with
  | .ternary guard yes no =>
    have hguard := safe_exprLog h guard
    have hyes := hguard.andThen (replay_exprLog env before guard) fun h => safe_exprLog h yes
    have hno := hyes.andThen
      ((replay_append _ _ _).trans (by rw [replay_exprLog, replay_exprLog])) fun h =>
        safe_exprLog h no
    exact hno.nodeLog (by rw [exprLog])
  | .binary op left right =>
    have hleft := safe_exprLog h left
    have hright := hleft.andThen (replay_exprLog env before left) fun h => safe_exprLog h right
    exact hright.nodeLog (by rw [exprLog])
  | .unary s op operand =>
    by_cases hneg : Rules.IsNegative op operand
    · obtain ⟨text, span, rfl, rfl⟩ := hneg.inv
      exact Safe.leafLog h (by rw [exprLog])
    · exact (safe_exprLog h operand).nodeLog (exprLog_unary env s hneg)
  | .call callee arguments close =>
    cases hb : env.get? callee.name with
    | none => exact Safe.leafLog h (by rw [exprLog, hb])
    | some b =>
      cases b with
      | const t => exact Safe.leafLog h (by rw [exprLog, hb])
      | var t => exact Safe.leafLog h (by rw [exprLog, hb])
      | function parameters result => exact (safe_exprsLog h arguments).nodeLog (by rw [exprLog, hb])
  | .name identifier => exact Safe.leafLog h (by rw [exprLog])
  | .paren s inner => exact (safe_exprLog h inner).nodeLog (by rw [exprLog])
  | .literal v => exact Safe.leafLog h (by rw [exprLog])

theorem safe_exprsLog {env : Env} {before : List Diagnostic} (h : Sound ⟨env, before⟩)
    (es : List Surface.Expr) : Safe ⟨env, before⟩ (exprsLog env es) := by
  match es with
  | [] => exact h
  | e :: rest =>
    exact (safe_exprLog h e).andThen (replay_exprLog env before e) fun h => safe_exprsLog h rest

end

/-! ## Statements -/

theorem safe_callLog {env : Env} {before : List Diagnostic} (h : Sound ⟨env, before⟩)
    (callee : Identifier) (arguments : List Surface.Expr) :
    Safe ⟨env, before⟩ (callLog env callee arguments) := by
  have harguments := safe_exprsLog h arguments
  unfold callLog
  split
  · exact ⟨h, nofun, h.report nofun⟩
  · exact ⟨h, nofun, h.report nofun⟩
  · exact harguments.andThen (replay_exprsLog env before arguments) fun h => .reports h
      (.append (unerring_diagnoseArguments _ _ _) (.conditional fun _ => by nofun))
  · exact harguments
  · exact ⟨h, nofun, h.report nofun⟩

theorem safe_guardLog {env : Env} {before : List Diagnostic} (h : Sound ⟨env, before⟩)
    (guard : Surface.Expr) {d : Ty → Diagnostic} (hd : ∀ t, (d t).types = [t]) :
    Safe ⟨env, before⟩ (guardLog env guard d) := by
  have hreport : Unerring (guardComplaint env guard d) := by
    refine .guarded fun hguard => ?_
    rw [hd]
    exact not_mem_types_single (Ty.ne_error_of_compatible_eq_false hguard).1
  exact (safe_exprLog h guard).andThen (replay_exprLog env before guard) fun h => .reports h hreport

/-- The value of the error type that a declaration has was reported, or used a name that has it. -/
theorem safe_declare {env : Env} (henclosing : env.enclosing ≠ []) {before : List Diagnostic}
    (h : Sound ⟨env, before⟩) (access : Access) (identifier : Identifier) (value : Surface.Expr) :
    Safe ⟨env, before⟩ (stmtLog env (.declare access identifier value)) := by
  refine (safe_exprLog h value).andThen (replay_exprLog env before value) fun h => ⟨h, nofun, ?_⟩
  refine h.bind identifier.name ?_ fun ht => ⟨henclosing, ?_⟩
  · cases access <;> nofun
  · have herror : (typedExpr env value).ty = .error := by
      cases access <;> exact Option.some.inj ht
    rcases error_explained h.proper value herror with hd | hlocal
    · exact List.append_ne_nil_of_right_ne_nil before hd
    · exact h.held hlocal.holdsError

mutual

theorem safe_stmtLog {env : Env} (henclosing : env.enclosing ≠ []) {before : List Diagnostic}
    (h : Sound ⟨env, before⟩) (s : Surface.Stmt) : Safe ⟨env, before⟩ (stmtLog env s) := by
  match s with
  | .assign target value =>
    exact (safe_exprLog h value).andThen (replay_exprLog env before value) fun h =>
      .reports h (unerring_diagnoseAssignment env target _)
  | .declare access identifier value => exact safe_declare henclosing h access identifier value
  | .ifThen guard yes =>
    exact (safe_guardLog h guard fun _ => rfl).andThen (replay_guardLog env before guard _) fun h =>
      .scopeLog h (safe_stmtLog (List.cons_ne_nil _ _) h.openScope yes)
  | .ifElse guard yes no =>
    have hyes : Safe ⟨env, before⟩ (stmtLog env (.ifThen guard yes)) :=
      (safe_guardLog h guard fun _ => rfl).andThen (replay_guardLog env before guard _) fun h =>
        .scopeLog h (safe_stmtLog (List.cons_ne_nil _ _) h.openScope yes)
    exact hyes.andThen (replay_stmtLog env before (.ifThen guard yes)) fun h =>
      .scopeLog h (safe_stmtLog (List.cons_ne_nil _ _) h.openScope no)
  | .whileDo guard body =>
    exact (safe_guardLog h guard fun _ => rfl).andThen (replay_guardLog env before guard _) fun h =>
      .scopeLog h (safe_stmtLog (List.cons_ne_nil _ _) h.openScope body)
  | .block body => exact .scopeLog h (safe_stmtsLog (List.cons_ne_nil _ _) h.openScope body)
  | .call callee arguments => exact safe_callLog h callee arguments
  | .empty => exact h

theorem safe_stmtsLog {env : Env} (henclosing : env.enclosing ≠ []) {before : List Diagnostic}
    (h : Sound ⟨env, before⟩) (body : List Surface.Stmt) :
    Safe ⟨env, before⟩ (stmtsLog env body) := by
  match body with
  | [] => exact h
  | s :: rest =>
    have hnext : (envAfter env s).enclosing ≠ [] := by rwa [envAfter_enclosing]
    exact (safe_stmtLog henclosing h s).andThen (replay_stmtLog env before s) fun h =>
      safe_stmtsLog hnext h rest

end

/-! ## Programs -/

theorem typeName_ne_error (t : Surface.TypeName) : t.ty ≠ .error := by
  cases t <;> nofun

theorem literalExprType_ne_error (e : Surface.LiteralExpr) : literalExprType e ≠ .error := by
  unfold literalExprType
  split
  · rename_i v
    cases v <;> nofun
  · nofun
  · rename_i v _
    cases v <;> nofun

theorem ofDecl_ne_error (d : Surface.Decl) :
    (∀ parameters, Binding.ofDecl d ≠ .function parameters (some .error)) ∧
      (Binding.ofDecl d).type? ≠ some .error := by
  cases d with
  | «global» access identifier value =>
    constructor
    · cases access <;> nofun
    · have ht := literalExprType_ne_error value
      cases access <;> exact fun h => ht (Option.some.inj h)
  | function identifier parameters body result =>
    refine ⟨fun parameters h => ?_, nofun⟩
    injection h with _ hresult
    obtain ⟨r, -, hr⟩ := Option.map_eq_some_iff.mp hresult
    exact typeName_ne_error r.1 hr

theorem safe_globalsLog (ds : List Surface.Decl) {env : Env} {before : List Diagnostic}
    (h : Sound ⟨env, before⟩) : Safe ⟨env, before⟩ (globalsLog env ds) := by
  induction ds generalizing env before with
  | nil => exact h
  | cons d ds ih =>
    unfold globalsLog bindGlobal
    by_cases hbound : env.inCurrent d.identifier.name = true
    · rw [if_pos hbound, if_pos hbound]
      exact ⟨h, fun _ he => Event.noConfusion he, ih (h.report List.not_mem_nil)⟩
    · obtain ⟨hfunction, htype⟩ := ofDecl_ne_error d
      rw [if_neg hbound, if_neg hbound]
      refine ⟨h, fun _ he => Event.noConfusion he, ih (h.bind _ hfunction fun ht => ?_)⟩
      exact (htype ht).elim

theorem safe_parametersLog (parameters : List (Identifier × Surface.TypeName)) {σ : State}
    (h : Sound σ) : Safe σ (parametersLog parameters) := by
  induction parameters generalizing σ with
  | nil => exact h
  | cons p parameters ih =>
    refine ⟨h, nofun, ih (h.bind _ (by nofun) fun ht => ?_)⟩
    exact (typeName_ne_error p.2 (Option.some.inj ht)).elim

theorem safe_resultLog {env : Env} {before : List Diagnostic} (h : Sound ⟨env, before⟩)
    (identifier : Identifier) (result : Option (Surface.TypeName × Surface.Expr)) :
    Safe ⟨env, before⟩ (resultLog env identifier result) := by
  cases result with
  | none => exact h
  | some r =>
    exact (safe_exprLog h r.2).andThen (replay_exprLog env before r.2) fun h => .reports h
      (.guarded fun hfound => not_mem_types_pair (Ty.ne_error_of_compatible_eq_false hfound).symm)

theorem safe_declLog {env : Env} {before : List Diagnostic} (h : Sound ⟨env, before⟩)
    (d : Surface.Decl) : Safe ⟨env, before⟩ (declLog env d) := by
  cases d with
  | «global» access identifier value => exact .reports h (unerring_diagnoseLiteralExpr value)
  | function identifier parameters body result =>
    have hreports := Safe.reports h (.append (unerring_redefinitions [] (parameters.map (·.1)))
      (unerring_redefinitions [] (declared body)))
    refine hreports.andThen (replay_reports env before _) fun h => .scopeLog h ?_
    have hbody := (safe_parametersLog parameters h.openScope).andThen
      (replay_parametersLog env _ parameters) fun h =>
        safe_stmtsLog (by rw [bodyEnv_enclosing]; exact List.cons_ne_nil _ _) h body
    exact hbody.andThen ((replay_append _ _ _).trans
      (by rw [State.after, replay_parametersLog, replay_stmtsLog])) fun h =>
        safe_resultLog h identifier result

theorem safe_declsLog (ds : List Surface.Decl) {env : Env} {before : List Diagnostic}
    (h : Sound ⟨env, before⟩) : Safe ⟨env, before⟩ (declsLog env ds) := by
  induction ds generalizing before with
  | nil => exact h
  | cons d ds ih =>
    exact (safe_declLog h d).andThen (replay_declLog env before d) fun h => ih h

theorem sound_start : Sound {} where
  proper := { outermost := nofun, function := nofun }
  held := nofun
  unerring := .nil

theorem safe_entryLog (p : Surface.Program) {before : List Diagnostic}
    (h : Sound ⟨globalEnv p.declarations, before⟩) :
    Safe ⟨globalEnv p.declarations, before⟩ (entryLog (programEnv p) (entry p)) := by
  cases hp : entry p with
  | absent =>
    refine ⟨h, fun _ he => Event.noConfusion he, h.bind _ (fun parameters hb => ?_) fun ht => ?_⟩
    · cases hb
    · cases ht
  | body statements =>
    simp only [programEnv, hp]
    exact .scopeLog h (safe_stmtsLog (List.cons_ne_nil _ _) h.openScope statements)
  | invalid identifier => exact ⟨h, fun _ he => Event.noConfusion he, h.report List.not_mem_nil⟩

theorem safe_programLog (p : Surface.Program) : Safe {} (programLog p) := by
  have hglobals := safe_globalsLog p.declarations sound_start
  have hentry := hglobals.andThen (replay_globals p) fun h => safe_entryLog p h
  exact hentry.andThen ((replay_append _ _ _).trans (by rw [replay_globals, replay_entryLog]))
    fun h => safe_declsLog (otherDeclarations p) h

/-- The error type was reported before. For the run that the log of a program describes: an
expression of the error type has a diagnostic or uses a local name of the error type; when a name has
the error type, something was reported already; and no diagnostic shows the error type. So a program
without diagnostics has no expression of the error type. -/
theorem error_reported (p : Surface.Program) :
    (replay {} (programLog p)).reported = diagnoseProgram p ∧
    (∀ done e rest, programLog p = done ++ .analyse e :: rest →
      exprLog (replay {} done).env e <+: .analyse e :: rest ∧
      ((typedExpr (replay {} done).env e).ty = .error →
        diagnoseExpr (replay {} done).env e ≠ [] ∨ RefersToError (replay {} done).env e)) ∧
    (∀ done rest, programLog p = done ++ rest →
      HoldsError (replay {} done).env → (replay {} done).reported ≠ []) ∧
    (∀ d ∈ diagnoseProgram p, Ty.error ∉ d.types) ∧
    (diagnoseProgram p = [] → ∀ e ∈ (typedProgram p).exprs, e.ty ≠ .error) := by
  have hsafe := safe_programLog p
  have hreplay := replay_programLog p
  refine ⟨by rw [hreplay], ?_, ?_, ?_, ?_⟩
  · intro done e rest hlog
    rw [hlog] at hsafe
    obtain ⟨hsound, hfollows, -⟩ := hsafe.drop
    exact ⟨hfollows e rfl, error_explained hsound.proper e⟩
  · intro done rest hlog
    rw [hlog] at hsafe
    exact hsafe.drop.sound.held
  · have hunerring := hsafe.sound_replay.unerring
    rw [hreplay] at hunerring
    exact hunerring
  · intro hnil
    obtain ⟨G, hp⟩ := (Rules.checked_iff.mp ⟨hnil, rfl⟩).programType
    exact hp.exprs_ne_error

end Analysis

end PZero
