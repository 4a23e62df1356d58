import PZero.Proofs.Analysis.ErrorType
import PZero.Proofs.Resolution.Origin

/-! # Both phases resolve names alike

Analysis and lowering have a table of names each, and open and close scopes on their own.
The local names of the one table are at any time those of the other, in the same order, and
the slot of a name is the one that lowering allocated for the declaration that the analysis
has in its table. So every name is local for both or for none, and where it is local both
mean the same declaration, also in programs with mistakes and also where lowering gives up.
-/
namespace PZero

namespace Scope
variable {α : Type}

/-- The bindings inside of the outermost frame, the innermost first. -/
def inner (s : Scope α) : List (String × α) := (s.current :: s.enclosing).dropLast.flatten

theorem local?_eq_lookup (s : Scope α) (name : String) : s.local? name = s.inner.lookup name :=
  findSome?_lookup _ name

@[simp] theorem inner_openScope (s : Scope α) : s.openScope.inner = s.inner := by
  simp [inner, openScope]

theorem inner_insert {s : Scope α} (h : s.enclosing ≠ []) (name : String) (a : α) :
    (s.insert name a).inner = (name, a) :: s.inner := by
  obtain ⟨current, enclosing⟩ := s
  cases enclosing with
  | nil => exact absurd rfl h
  | cons frame rest => simp [inner, insert]

theorem inner_of_enclosing_nil {s : Scope α} (h : s.enclosing = []) : s.inner = [] := by
  simp [inner, h]

end Scope

namespace Resolution
open Lowering Bytecode Analysis Trace

/-! ## Matching events -/

/-- A name is looked up in both tables. It is local for both or for none; and if it is, the slot is
the one that was allocated for the declaration that the analysis finds. -/
structure Resolved (allocated : List UInt16) (env : Scope Known) (names : Scope UInt16)
    (name : String) : Prop where
  iff : (names.get? name).isSome ↔ (env.local? name).isSome
  slot : ∀ known, env.local? name = some known → env.get? name = some known ∧
    ∃ k, known.site = some k ∧ allocated[k]? = names.get? name

/-- Events of the analysis and of the lowering, one by one. The slots that were allocated so far
stand first, in the order of the declarations, and those behind the events last. -/
inductive Matches :
    List UInt16 → List (Event Known) → List (Event UInt16) → List UInt16 → Prop
  | nil (allocated) : Matches allocated [] [] allocated
  | declare {allocated allocated' events events' known} (name slot) :
      known.site = some allocated.length →
      Matches (allocated ++ [slot]) events events' allocated' →
      Matches allocated (.declare name known :: events) (.declare name slot :: events') allocated'
  | refer {allocated allocated' events events' name env names} :
      Resolved allocated env names name → Matches allocated events events' allocated' →
      Matches allocated (.refer name env :: events) (.refer name names :: events') allocated'
  | assign {allocated allocated' events events' name env names} :
      Resolved allocated env names name → Matches allocated events events' allocated' →
      Matches allocated (.assign name env :: events) (.assign name names :: events') allocated'

namespace Matches
variable {a b c : List UInt16} {events first : List (Event Known)}
  {events' first' : List (Event UInt16)}

theorem append (h : Matches a first first' b) (h' : Matches b events events' c) :
    Matches a (first ++ events) (first' ++ events') c := by
  induction h with
  | nil => exact h'
  | declare name slot hsite _ ih => exact .declare name slot hsite (ih h')
  | refer hresolved _ ih => exact .refer hresolved (ih h')
  | assign hresolved _ ih => exact .assign hresolved (ih h')

theorem isPrefix (h : Matches a events events' b) : a <+: b := by
  induction h with
  | nil => exact List.prefix_rfl
  | declare name slot _ _ ih => exact (List.prefix_append _ _).trans ih
  | refer _ _ ih => exact ih
  | assign _ _ ih => exact ih

theorem length_eq (h : Matches a events events' b) : b.length = a.length + declarations events := by
  induction h with
  | nil => rfl
  | declare name slot _ _ ih =>
    rw [ih, List.length_append, List.length_singleton, declarations, declarations,
      List.countP_cons_of_pos rfl]
    omega
  | refer _ _ ih => exact ih
  | assign _ _ ih => exact ih

end Matches

/-! ## Tables -/

/-- A binding of the analysis and one of the lowering belong to one declaration. -/
def SameSite (allocated : List UInt16) (b : String × Known) (b' : String × UInt16) : Prop :=
  b'.1 = b.1 ∧ ∃ k, b.2.site = some k ∧ allocated[k]? = some b'.2

/-- The local names of the analysis are those of the lowering, each with its declaration. -/
structure Aligned (allocated : List UInt16) (env : Scope Known) (names : Scope UInt16) : Prop where
  nested : env.enclosing ≠ []
  bindings : List.Forall₂ (SameSite allocated) env.inner names.bindings

theorem resolved_of_sameSite {allocated : List UInt16} {l : List (String × Known)}
    {l' : List (String × UInt16)} (h : List.Forall₂ (SameSite allocated) l l') (name : String) :
    ((l'.lookup name).isSome ↔ (l.lookup name).isSome) ∧
      ∀ known, l.lookup name = some known →
        ∃ k, known.site = some k ∧ allocated[k]? = l'.lookup name := by
  induction h with
  | nil => simp
  | @cons b b' l l' hb _ ih =>
    obtain ⟨x, known⟩ := b
    obtain ⟨_, slot⟩ := b'
    obtain ⟨hname, k, hsite, hslot⟩ := hb
    obtain rfl : _ = x := hname
    rw [lookup_cons_ite, lookup_cons_ite]
    split
    · refine ⟨by simp, fun known' heq => ?_⟩
      cases heq
      exact ⟨k, hsite, hslot⟩
    · exact ih

namespace Aligned
variable {a b : List UInt16} {env : Scope Known} {slots slots' : Slots} {names : Scope UInt16}

theorem resolved (h : Aligned a env names) (name : String) : Resolved a env names name := by
  obtain ⟨hiff, hslot⟩ := resolved_of_sameSite h.bindings name
  rw [← Scope.get?_eq_lookup, ← Scope.local?_eq_lookup] at hiff
  refine ⟨hiff, fun known hknown => ⟨?_, ?_⟩⟩
  · rw [Scope.get?_eq_or, hknown, Option.some_or]
  · rw [Scope.local?_eq_lookup] at hknown
    rw [Scope.get?_eq_lookup]
    exact hslot known hknown

theorem extend (h : Aligned a env names) (hab : a <+: b) : Aligned b env names := by
  refine ⟨h.nested, h.bindings.imp ?_⟩
  rintro x y ⟨hname, k, hsite, hslot⟩
  obtain ⟨rest, rfl⟩ := hab
  obtain ⟨hk, -⟩ := List.getElem?_eq_some_iff.mp hslot
  exact ⟨hname, k, hsite, by rw [List.getElem?_append_left hk, hslot]⟩

theorem openScope (h : Aligned a env slots.names) :
    Aligned a env.openScope slots.openScope.names := by
  refine ⟨List.cons_ne_nil _ _, ?_⟩
  rw [Scope.inner_openScope, Slots.bindings_openScope]
  exact h.bindings

/-- A declaration takes the next number and the next slot. -/
theorem declare (h : Aligned a env slots.names) {name : String} {known : Known} {slot : UInt16}
    (hsite : known.site = some a.length) (hbind : slots.bind name = .ok (slot, slots')) :
    Aligned (a ++ [slot]) (env.insert name known) slots'.names := by
  obtain ⟨rfl, hbindings, -⟩ := Slots.bind_eq hbind
  refine ⟨h.nested, ?_⟩
  rw [Scope.inner_insert h.nested, hbindings]
  refine .cons ⟨rfl, a.length, hsite, ?_⟩ (h.extend (List.prefix_append _ _)).bindings
  rw [List.getElem?_append_right (Nat.le_refl _), Nat.sub_self]
  rfl

/-- Behind a scope the tables are those in front of it. -/
theorem closeScope (h : Aligned a env slots.names) (hab : a <+: b)
    (hgrows : slots.openScope.Grows slots') : Aligned b env slots'.closeScope.names := by
  rw [hgrows.names_closeScope]
  exact h.extend hab

/-- A routine begins without local names. -/
theorem start (a : List UInt16) (henv : env.enclosing = []) (first : UInt16) :
    Aligned a env.openScope (Slots.start first).names := by
  refine ⟨List.cons_ne_nil _ _, ?_⟩
  rw [Scope.inner_openScope, Scope.inner_of_enclosing_nil henv]
  exact .nil

end Aligned

/-! ## Lowering keeps up with analysis -/

/-- What lowering does with names matches the first of the events; all of them if it succeeds, and
then the result has the given property. -/
def Tracks {α : Type} (a : List UInt16) (events : List (Event Known)) (x : Trace α)
    (post : α → List UInt16 → Prop) : Prop :=
  ∃ first rest b, events = first ++ rest ∧ Matches a first x.events b ∧
    ∀ r, x.result = .ok r → rest = [] ∧ post r b

namespace Tracks
variable {α β : Type} {a : List UInt16} {events events' : List (Event Known)}
  {post : α → List UInt16 → Prop} {final : β → List UInt16 → Prop}

theorem pure {r : α} (h : post r a) : Tracks a [] (pure r) post := by
  refine ⟨[], [], a, rfl, .nil a, fun r' hr => ?_⟩
  cases hr
  exact ⟨rfl, h⟩

theorem bind {x : Trace α} {f : α → Trace β} (hx : Tracks a events x post)
    (hf : ∀ r b, x.result = .ok r → a <+: b → b.length = a.length + declarations events →
      post r b → Tracks b events' (f r) final) :
    Tracks a (events ++ events') (x >>= f) final := by
  obtain ⟨first, rest, b, rfl, hmatches, hok⟩ := hx
  cases hresult : x.result with
  | error e =>
    rw [bind_of_error hresult, List.append_assoc]
    exact ⟨first, rest ++ events', b, rfl, hmatches, fun _ h => nomatch h⟩
  | ok r =>
    obtain ⟨rfl, hpost⟩ := hok r hresult
    rw [List.append_nil] at hf ⊢
    obtain ⟨first', rest', c, rfl, hmatches', hok'⟩ :=
      hf r b hresult hmatches.isPrefix hmatches.length_eq hpost
    rw [bind_of_ok hresult]
    exact ⟨first ++ first', rest', c, (List.append_assoc ..).symm, hmatches.append hmatches', hok'⟩

/-- The last part of a computation that does something with names. -/
theorem last {x : Trace α} {f : α → Trace β} (hx : Tracks a events x post)
    (hf : ∀ r b, x.result = .ok r → a <+: b → post r b → Tracks b [] (f r) final) :
    Tracks a events (x >>= f) final := by
  rw [← List.append_nil events]
  exact hx.bind fun r b hr hab _ hpost => hf r b hr hab hpost

theorem lift {x : Except Lowering.Error α} (h : ∀ r, x = .ok r → post r a) :
    Tracks a [] (Trace.lift x) post :=
  ⟨[], [], a, rfl, .nil a, fun r hr => ⟨rfl, h r hr⟩⟩

theorem bind_lift {x : Except Lowering.Error α} {f : α → Trace β}
    (hf : ∀ r, x = .ok r → Tracks a events (f r) final) :
    Tracks a events (Trace.lift x >>= f) final := by
  refine (@lift _ a (fun r b => x = .ok r ∧ a = b) x fun r hr => ⟨hr, rfl⟩).bind ?_
  rintro r _ - - - ⟨hr, rfl⟩
  exact hf r hr

theorem note {event : Event Known} {event' : Event UInt16} {b : List UInt16}
    (h : Matches a [event] [event'] b) : Tracks a [event] (Trace.note event') fun _ c => b = c :=
  ⟨[event], [], b, rfl, h, fun _ _ => ⟨rfl, rfl⟩⟩

end Tracks

/-! ## Expressions -/

section
variable {a : List UInt16} {env : Scope Known} {slots : Slots} (owner : String)

theorem lookups_append (env : Scope Known) (names names' : List String) :
    lookups env (names ++ names') = lookups env names ++ lookups env names' :=
  List.map_append

mutual

theorem exprTrace_tracks (h : Aligned a env slots.names) (base : Nat) (e : Typed.Expr) :
    Tracks a (lookups env e.references) (exprTrace owner slots base e) fun _ b => a = b := by
  match e with
  | .ternary guard yes no =>
    rw [exprTrace, Typed.Expr.references, lookups_append, lookups_append, List.append_assoc]
    refine (exprTrace_tracks h base guard).bind ?_
    rintro g _ - - - rfl
    refine (exprTrace_tracks h _ yes).bind ?_
    rintro y _ - - - rfl
    refine (exprTrace_tracks h _ no).last ?_
    rintro n _ - - rfl
    exact .pure rfl
  | .binary op left right =>
    rw [exprTrace, Typed.Expr.references, lookups_append]
    refine (exprTrace_tracks h base left).bind ?_
    rintro l _ - - - rfl
    refine (exprTrace_tracks h _ right).last ?_
    rintro r _ - - rfl
    exact .bind_lift fun _ _ => .pure rfl
  | .unary t op operand =>
    rw [exprTrace, Typed.Expr.references]
    refine (exprTrace_tracks h base operand).last ?_
    rintro code _ - - rfl
    exact .bind_lift fun _ _ => .pure rfl
  | .call t name arguments =>
    rw [exprTrace, Typed.Expr.references]
    refine (exprsTrace_tracks h base arguments).last ?_
    rintro code _ - - rfl
    exact .bind_lift fun _ _ => .pure rfl
  | .name t name =>
    rw [exprTrace, Typed.Expr.references]
    refine (Tracks.note (.refer (h.resolved name) (.nil a))).last ?_
    rintro _ _ - - rfl
    exact .bind_lift fun _ _ => .pure rfl
  | .literal v =>
    rw [exprTrace, Typed.Expr.references]
    exact .pure rfl

theorem exprsTrace_tracks (h : Aligned a env slots.names) (base : Nat) (es : List Typed.Expr) :
    Tracks a (lookups env (Typed.exprsReferences es)) (exprsTrace owner slots base es)
      fun _ b => a = b := by
  match es with
  | [] =>
    rw [exprsTrace, Typed.exprsReferences]
    exact .pure rfl
  | e :: rest =>
    rw [exprsTrace, Typed.exprsReferences, lookups_append]
    refine (exprTrace_tracks h base e).bind ?_
    rintro code _ - - - rfl
    refine (exprsTrace_tracks h _ rest).last ?_
    rintro others _ - - rfl
    exact .pure rfl

end

/-! ## Statements -/

theorem printsTrace_tracks (h : Aligned a env slots.names) (base : Nat) (es : List Typed.Expr) :
    Tracks a (lookups env (Typed.exprsReferences es)) (printsTrace owner slots base es)
      fun _ b => a = b := by
  induction es generalizing base with
  | nil =>
    rw [printsTrace, Typed.exprsReferences]
    exact .pure rfl
  | cons e rest ih =>
    rw [printsTrace, Typed.exprsReferences, lookups_append]
    refine (exprTrace_tracks owner h _ e).bind ?_
    rintro code _ - - - rfl
    refine .bind_lift fun print _ => ?_
    refine (ih _).last ?_
    rintro others _ - - rfl
    exact .pure rfl

theorem callTrace_tracks (h : Aligned a env slots.names) (base : Nat) (callee : Typed.Callee)
    (arguments : List Typed.Expr) :
    Tracks a (lookups env (Typed.exprsReferences arguments))
      (callTrace owner slots base callee arguments) fun _ b => a = b := by
  cases callee with
  | print => exact printsTrace_tracks owner h base arguments
  | println =>
    refine (printsTrace_tracks owner h base arguments).last ?_
    rintro code _ - - rfl
    exact .pure rfl
  | function name =>
    refine (exprsTrace_tracks owner h base arguments).last ?_
    rintro code _ - - rfl
    exact .bind_lift fun _ _ => .pure rfl

theorem bindTrace_tracks (h : Aligned a env slots.names) (name : String) {known : Known}
    (hsite : known.site = some a.length) :
    Tracks a [.declare name known] (bindTrace slots name)
      fun r b => Aligned b (env.insert name known) r.2.names := by
  refine .bind_lift fun bound hbound => ?_
  refine (Tracks.note (.declare name bound.1 hsite (.nil _))).last ?_
  rintro _ _ - - rfl
  exact .pure (h.declare hsite hbound)

end

theorem typedCall_eq (env : Env) (callee : Surface.Identifier) (arguments : List Surface.Expr) :
    ∃ callee' arguments', typedCall env callee arguments = .call callee' arguments' := by
  unfold typedCall
  split <;> exact ⟨_, _, rfl⟩

mutual

theorem stmtTrace_tracks (owner : String) {a : List UInt16} {env : Scope Known} {slots : Slots}
    (h : Aligned a env slots.names) {n : Nat} (hn : n = a.length) (base : Nat) (s : Surface.Stmt) :
    Tracks a (passStmt env n s).events (stmtTrace owner slots base (passStmt env n s).tree)
      fun r b => Aligned b (passStmt env n s).env r.2.names := by
  match s with
  | .assign target value =>
    simp only [passStmt, stmtTrace]
    refine (exprTrace_tracks owner h base _).bind ?_
    rintro code _ - - - rfl
    refine (Tracks.note (.assign (h.resolved target.name) (.nil a))).last ?_
    rintro _ _ - - rfl
    exact .bind_lift fun _ _ => .pure h
  | .declare access identifier value =>
    simp only [passStmt, stmtTrace]
    refine (exprTrace_tracks owner h base _).bind ?_
    rintro code _ - - - rfl
    refine (bindTrace_tracks h identifier.name (congrArg some hn)).last ?_
    rintro ⟨slot, slots'⟩ b - - hb
    exact .bind_lift fun _ _ => .pure hb
  | .ifThen guard yes =>
    simp only [passStmt, stmtTrace]
    refine (exprTrace_tracks owner h base _).bind ?_
    rintro g _ - - - rfl
    refine (stmtTrace_tracks owner h.openScope hn _ yes).last ?_
    rintro ⟨y, slots'⟩ b hy hab -
    rw [stmtTrace_result] at hy
    exact .pure (h.closeScope hab (stmtCode_grows _ hy))
  | .ifElse guard yes no =>
    simp only [passStmt, stmtTrace]
    refine (exprTrace_tracks owner h base _).bind ?_
    rintro g _ - - - rfl
    refine (stmtTrace_tracks owner h.openScope hn _ yes).bind ?_
    rintro ⟨y, slots'⟩ b hy hab hlength -
    rw [stmtTrace_result] at hy
    have hb := h.closeScope hab (stmtCode_grows _ hy)
    refine (stmtTrace_tracks owner hb.openScope (by rw [hlength, hn]) _ no).last ?_
    rintro ⟨n', slots''⟩ c hno hbc -
    rw [stmtTrace_result] at hno
    exact .pure (hb.closeScope hbc (stmtCode_grows _ hno))
  | .whileDo guard body =>
    simp only [passStmt, stmtTrace]
    refine (exprTrace_tracks owner h base _).bind ?_
    rintro g _ - - - rfl
    refine (stmtTrace_tracks owner h.openScope hn _ body).last ?_
    rintro ⟨code, slots'⟩ b hbody hab -
    rw [stmtTrace_result] at hbody
    exact .pure (h.closeScope hab (stmtCode_grows _ hbody))
  | .block body =>
    simp only [passStmt, stmtTrace]
    refine (stmtsTrace_tracks owner h.openScope hn base body).last ?_
    rintro ⟨code, slots'⟩ b hbody hab -
    rw [stmtsTrace_result] at hbody
    exact .pure (h.closeScope hab (stmtsCode_grows _ hbody))
  | .call callee arguments =>
    obtain ⟨callee', arguments', hcall⟩ := typedCall_eq (erase env) callee arguments
    simp only [passStmt, hcall, Typed.Stmt.arguments, stmtTrace]
    refine (callTrace_tracks owner h base callee' arguments').last ?_
    rintro code _ - - rfl
    exact .pure h
  | .empty =>
    simp only [passStmt, stmtTrace]
    exact .pure h

theorem stmtsTrace_tracks (owner : String) {a : List UInt16} {env : Scope Known} {slots : Slots}
    (h : Aligned a env slots.names) {n : Nat} (hn : n = a.length) (base : Nat)
    (body : List Surface.Stmt) :
    Tracks a (passStmts env n body).events (stmtsTrace owner slots base (passStmts env n body).tree)
      fun r b => Aligned b (passStmts env n body).env r.2.names := by
  match body with
  | [] =>
    simp only [passStmts, stmtsTrace]
    exact .pure h
  | s :: rest =>
    simp only [passStmts, stmtsTrace]
    refine (stmtTrace_tracks owner h hn base s).bind ?_
    rintro ⟨code, slots'⟩ b - - hlength hb
    refine (stmtsTrace_tracks owner hb (by rw [hlength, hn]) _ rest).last ?_
    rintro ⟨others, slots''⟩ c - - hc
    exact .pure hc

end

/-! ## Routines -/

section
variable (owner : String) {a : List UInt16} {env : Scope Known} {n : Nat}

theorem bindAllTrace_tracks {slots : Slots} (h : Aligned a env slots.names) (hn : n = a.length)
    (parameters : List (Surface.Identifier × Surface.TypeName)) :
    Tracks a (passParameters env n parameters).events
      (bindAllTrace slots ((passParameters env n parameters).tree.map (·.1)))
      fun slots' b => Aligned b (passParameters env n parameters).env slots'.names := by
  induction parameters generalizing a env n slots with
  | nil => exact .pure h
  | cons p rest ih =>
    simp only [passParameters, List.map_cons, bindAllTrace]
    rw [← List.singleton_append]
    refine (bindTrace_tracks h p.1.name (congrArg some hn)).bind ?_
    rintro ⟨slot, slots'⟩ b - - hlength hb
    exact ih hb (by rw [hlength, hn]; rfl)

theorem resultTrace_tracks {slots : Slots} (h : Aligned a env slots.names) (base : Nat)
    (name : String) (result : Option Typed.Expr) :
    Tracks a (lookups env (Typed.exprsReferences result.toList))
      (resultTrace owner slots base name result) fun _ b => a = b := by
  cases result with
  | none => exact .pure rfl
  | some e =>
    simp only [Option.toList_some, Typed.exprsReferences, List.append_nil]
    refine (exprTrace_tracks owner h base e).last ?_
    rintro code _ - - rfl
    exact .bind_lift fun _ _ => .pure rfl

theorem passDecl_tracks (henv : env.enclosing = []) (hn : n = a.length) {d : Surface.Decl}
    {f : Typed.Function} (hf : (passDecl env n d).1 = .function f) :
    Tracks a (passDecl env n d).2 (functionTrace owner f) fun _ _ => True := by
  cases d with
  | global access identifier value => cases hf
  | function identifier parameters body result =>
    cases hf
    simp only [passDecl, functionTrace]
    refine (bindAllTrace_tracks (.start a henv 0) hn parameters).bind ?_
    rintro slots b - - hlength hb
    refine (stmtsTrace_tracks owner hb (by rw [hlength, hn]) 0 body).bind ?_
    rintro ⟨code, slots'⟩ c - - - hc
    refine (resultTrace_tracks owner hc code.length identifier.name _).last ?_
    rintro tail _ - - -
    exact .bind_lift fun _ _ => .pure trivial

theorem functionsTrace_tracks (henv : env.enclosing = []) (hn : n = a.length)
    (ds : List Surface.Decl) (statement : Typed.Stmt) :
    Tracks a (passDecls env n ds).2
      (functionsTrace owner (functions ⟨(passDecls env n ds).1, statement⟩)) fun _ _ => True := by
  induction ds generalizing a n with
  | nil => exact .pure trivial
  | cons d rest ih =>
    cases hd : (passDecl env n d).1 with
    | global access name value =>
      have hevents : (passDecl env n d).2 = [] := by
        cases d with
        | global => rfl
        | function => cases hd
      simp only [passDecls, hd, hevents, List.nil_append, functions, List.filterMap_cons]
      exact ih hn
    | function f =>
      simp only [passDecls, hd, functions, List.filterMap_cons, functionsTrace]
      refine (passDecl_tracks owner henv hn hd).bind ?_
      rintro routine b - - hlength -
      refine (ih (by rw [hlength, hn])).last ?_
      rintro others c - - -
      exact .pure trivial

/-- The statement of a program may have lost its block. The scope that is opened for a block has
no names of its own, so both tables are aligned with it and without it. -/
theorem entryTrace_tracks (henv : env.enclosing = []) (hn : n = a.length)
    (statements : List Surface.Stmt) :
    Tracks a (passStmts env.openScope n statements).events
      (entryTrace owner (programStatement (passStmts env.openScope n statements).tree))
      fun _ _ => True := by
  have hstart := Aligned.start a henv 1
  have hblock : Tracks a (passStmts env.openScope n statements).events
      (entryTrace owner (.block (passStmts env.openScope n statements).tree)) fun _ _ => True := by
    have hopened : Aligned a env.openScope (Slots.start 1).openScope.names :=
      ⟨hstart.nested, by rw [Slots.bindings_openScope]; exact hstart.bindings⟩
    have hbody : Tracks a (passStmts env.openScope n statements).events
        (stmtTrace owner (Slots.start 1) 0 (.block (passStmts env.openScope n statements).tree))
        fun _ _ => True := by
      rw [stmtTrace]
      exact (stmtsTrace_tracks owner hopened hn 0 statements).last fun _ _ _ _ _ => .pure trivial
    exact hbody.last fun _ _ _ _ _ => .pure trivial
  match statements with
  | [] => exact hblock
  | [s] =>
    simp only [passStmts, programStatement, List.append_nil, entryTrace]
    exact (stmtTrace_tracks owner hstart hn 0 s).last fun _ _ _ _ _ => .pure trivial
  | _ :: _ :: _ => exact hblock

end

/-! ## Programs -/

theorem globalEnv_enclosing (ds : List Surface.Decl) : (globalEnv ds).enclosing = [] := by
  refine List.foldlRecOn (motive := fun env : Env => env.enclosing = []) ds bindGlobal rfl ?_
  intro env henv d _
  unfold bindGlobal
  split <;> exact henv

theorem programEnv_enclosing (p : Surface.Program) : (programEnv p).enclosing = [] := by
  unfold programEnv
  split <;> exact globalEnv_enclosing p.declarations

theorem passProgram_tracks (p : Surface.Program) (owner : String) :
    Tracks [] (passProgram p).2 (compileTrace (passProgram p).1 owner) fun _ _ => True := by
  have henv : (ofGlobals (programEnv p)).enclosing = [] := by
    rw [ofGlobals, Scope.map, programEnv_enclosing, List.map_nil]
  -- without an entry function lowering ends with the functions and an empty statement
  have hempty : ∀ a : List UInt16, Tracks a [] (entryTrace owner .empty) fun _ _ => True :=
    fun a => .pure trivial
  simp only [passProgram, compileTrace]
  cases entry p with
  | absent | invalid _ =>
    refine (functionsTrace_tracks owner henv rfl _ .empty).last ?_
    rintro routines b - - -
    refine (hempty b).last ?_
    rintro main c - - -
    exact .pure trivial
  | body statements =>
    refine (functionsTrace_tracks owner henv rfl _ _).bind ?_
    rintro routines b - - hlength -
    refine (entryTrace_tracks owner henv (by rw [hlength]; simp) statements).last ?_
    rintro main c - - -
    exact .pure trivial

/-- For every program, with or without mistakes: the analysis gives its typed form, and what
lowering does with the names of that form, until it ends with a module or an error, is event by
event what the analysis has done. A name that is referred to or assigned to has a slot if and only
if the analysis finds it inside of the global frame, and the slot is then the one that was
allocated for the very declaration that the analysis has found. -/
theorem names_resolve_alike (p : Surface.Program) (owner : String) :
    (passProgram p).1 = typedProgram p ∧
    (compileTrace (typedProgram p) owner).result = compile (typedProgram p) owner ∧
    ∃ lowered rest allocated, (passProgram p).2 = lowered ++ rest ∧
      Matches [] lowered (compileTrace (typedProgram p) owner).events allocated ∧
      ∀ m, compile (typedProgram p) owner = .ok m → rest = [] := by
  obtain ⟨lowered, rest, allocated, hevents, hmatches, hok⟩ := passProgram_tracks p owner
  rw [passProgram_fst] at hmatches hok
  rw [compileTrace_result] at hok
  exact ⟨passProgram_fst p, compileTrace_result _ owner, lowered, rest, allocated, hevents,
    hmatches, fun m hm => (hok m hm).1⟩

/-- A branch declares a name that the statements around it have declared, too. -/
def branching : Surface.Program where
  declarations :=
    [.function ⟨"main", {}⟩ []
      [.declare .readWrite ⟨"x", {}⟩ (.literal (.int "1" {})),
        .ifThen (.literal (.bool true {})) (.declare .readWrite ⟨"x", {}⟩ (.name ⟨"x", {}⟩)),
        .assign ⟨"x", {}⟩ (.name ⟨"x", {}⟩)] none]

/-- Inside of the branch and behind it, `x` has the slot of the first declaration. -/
theorem names_resolve_alike_branching :
    (∃ allocated, Matches [] (passProgram branching).2
      (compileTrace (typedProgram branching) "demo").events allocated) ∧
    (compileTrace (typedProgram branching) "demo").events.map (fun
      | .declare _ slot => some slot
      | .refer name names | .assign name names => names.get? name) =
        [some 1, some 1, some 2, some 1, some 1] := by
  obtain ⟨-, -, lowered, rest, allocated, hevents, hmatches, hok⟩ :=
    names_resolve_alike branching "demo"
  obtain rfl := hok _ rfl
  rw [List.append_nil] at hevents
  refine ⟨⟨allocated, ?_⟩, by decide +kernel⟩
  rw [hevents]
  exact hmatches

end Resolution
end PZero
