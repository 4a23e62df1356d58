import PZero.Proofs.Lowering.Code
import PZero.Proofs.Scopes

/-! # How slots are given away

Scopes are opened and closed and names are bound, in any order. However it goes, the names
that are visible have different slots, which lie between the reserved ones and the end of
the frame, and closing a scope takes back just what was given since it was opened.
-/
namespace PZero.Lowering.Slots
open Scope (Event Balanced openScopes)

/-! ## Binding a name -/

theorem bind_eq_error_iff {s : Slots} {name : String} {e : Error} :
    s.bind name = .error e ↔ s.next = 65535 ∧ e = .noSlot name := by
  unfold bind
  split
  · next hfull => simp [hfull, eq_comm]
  · next hfree => simp [hfree]

/-! ## What is given away in the course of a history -/

/-- The slot that is given away; names are what is declared. -/
def granted? (s : Slots) : Event String → Option UInt16
  | .declare name => (s.bind name).toOption.map (·.1)
  | .openScope | .closeScope => none

/-- The slots after an event; a name that gets no slot changes nothing. -/
def after (s : Slots) : Event String → Slots
  | .openScope => s.openScope
  | .closeScope => s.closeScope
  | .declare name =>
    match s.bind name with
    | .ok (_, s') => s'
    | .error _ => s

def afterAll (s : Slots) (history : List (Event String)) : Slots := history.foldl after s

/-- All slots that are given away, the first one first. -/
def granted (s : Slots) : List (Event String) → List UInt16
  | [] => []
  | e :: rest => (s.granted? e).toList ++ (s.after e).granted rest

theorem afterAll_append (s : Slots) (history history' : List (Event String)) :
    s.afterAll (history ++ history') = (s.afterAll history).afterAll history' :=
  List.foldl_append

/-- A name either gets the next slot or is left as it was. -/
theorem after_declare_cases (s : Slots) (name : String) :
    (∃ s', s.bind name = .ok (s.next, s') ∧ s.after (.declare name) = s') ∨
      s.bind name = .error (.noSlot name) ∧ s.after (.declare name) = s := by
  cases hbind : s.bind name with
  | ok p =>
    obtain ⟨slot, s'⟩ := p
    obtain ⟨-, rfl, -⟩ := bind_eq_ok_iff.mp hbind
    exact .inl ⟨s', rfl, by simp only [after, hbind]⟩
  | error e =>
    obtain ⟨-, rfl⟩ := bind_eq_error_iff.mp hbind
    exact .inr ⟨rfl, by simp only [after, hbind]⟩

/-! ## Slots that are in use -/

/-- A table of names, the next slot and the slots saved for the open scopes, as they are when
names get slots one after the other. Closed scopes have left no trace. -/
inductive Allocated (firstFree : UInt16) : Scope UInt16 → UInt16 → List UInt16 → Prop
  | start : Allocated firstFree {} firstFree []
  | openScope {names next saved} : Allocated firstFree names next saved →
      Allocated firstFree names.openScope next (next :: saved)
  | bind (name : String) {names next saved} : Allocated firstFree names next saved →
      next ≠ 65535 → Allocated firstFree (names.insert name next) (next + 1) saved

namespace Allocated
variable {firstFree next : UInt16} {names : Scope UInt16} {saved : List UInt16}

/-- Around the innermost scope the slots are in use that were so when it was opened. -/
theorem enclosing {back : UInt16} (h : Allocated firstFree names next (back :: saved)) :
    ∃ outer, Allocated firstFree outer back saved ∧
      names.enclosing = outer.current :: outer.enclosing ∧ back ≤ next := by
  generalize hall : back :: saved = all at h
  induction h with
  | start => cases hall
  | openScope h =>
    cases hall
    exact ⟨_, h, rfl, UInt16.le_refl _⟩
  | bind name h hfree ih =>
    obtain ⟨outer, houter, henclosing, hle⟩ := ih hall
    have hsucc := toNat_succ hfree
    rw [UInt16.le_iff_toNat_le] at hle
    exact ⟨outer, houter, henclosing, UInt16.le_iff_toNat_le.mpr (by omega)⟩

theorem closeScope {back : UInt16} (h : Allocated firstFree names next (back :: saved)) :
    Allocated firstFree names.closeScope back saved ∧ back ≤ next := by
  obtain ⟨outer, houter, henclosing, hle⟩ := h.enclosing
  have hclose : names.closeScope = outer := by simp only [Scope.closeScope, henclosing]
  exact ⟨hclose ▸ houter, hle⟩

theorem firstFree_le (h : Allocated firstFree names next saved) : firstFree ≤ next := by
  induction h with
  | start => exact UInt16.le_refl _
  | openScope _ ih => exact ih
  | bind name _ hfree ih =>
    have hsucc := toNat_succ hfree
    rw [UInt16.le_iff_toNat_le] at ih ⊢
    omega

/-- Every slot in use lies between the reserved ones and the next one. -/
theorem get?_bounds (h : Allocated firstFree names next saved) {name : String} {slot : UInt16}
    (hslot : names.get? name = some slot) : firstFree ≤ slot ∧ slot < next := by
  induction h with
  | start => cases hslot
  | openScope _ ih => exact ih (Scope.get?_openScope _ name ▸ hslot)
  | bind other h hfree ih =>
    have hsucc := toNat_succ hfree
    have hfirst := h.firstFree_le
    rw [Scope.get?_insert] at hslot
    rw [UInt16.lt_iff_toNat_lt]
    split at hslot
    · cases hslot
      exact ⟨hfirst, by omega⟩
    · obtain ⟨hle, hlt⟩ := ih hslot
      rw [UInt16.lt_iff_toNat_lt] at hlt
      exact ⟨hle, by omega⟩

theorem get?_ne_next (h : Allocated firstFree names next saved) (name : String) :
    names.get? name ≠ some next := by
  intro hslot
  have hlt := (h.get?_bounds hslot).2
  exact absurd hlt (UInt16.lt_irrefl next)

/-- No two visible names share a slot. -/
theorem get?_inj (h : Allocated firstFree names next saved) {name other : String} {slot : UInt16}
    (hname : names.get? name = some slot) (hother : names.get? other = some slot) :
    other = name := by
  induction h with
  | start => cases hname
  | openScope _ ih =>
    rw [Scope.get?_openScope] at hname hother
    exact ih hname hother
  | bind bound h _ ih =>
    rw [Scope.get?_insert] at hname hother
    split at hname
    · next hn =>
      cases hname
      split at hother
      · next ho => exact ho.trans hn.symm
      · exact absurd hother (h.get?_ne_next other)
    · split at hother
      · cases hother
        exact absurd hname (h.get?_ne_next name)
      · exact ih hname hother

end Allocated

/-- What every event keeps: names, counter and saved slots are in step, and the frame has room. -/
structure InStep (firstFree : UInt16) (s : Slots) : Prop where
  allocated : Allocated firstFree s.names s.next s.saved
  next_le : s.next ≤ s.maxLocals

theorem InStep.start (firstFree : UInt16) : InStep firstFree (start firstFree) :=
  ⟨.start, UInt16.le_refl _⟩

theorem InStep.after {firstFree : UInt16} {s : Slots} (h : InStep firstFree s) (e : Event String) :
    InStep firstFree (s.after e) := by
  obtain ⟨hallocated, hle⟩ := h
  cases e with
  | openScope => exact ⟨hallocated.openScope, hle⟩
  | closeScope =>
    cases hsaved : s.saved with
    | nil =>
      simp only [Slots.after, Slots.closeScope, hsaved]
      exact ⟨hallocated, hle⟩
    | cons back saved =>
      rw [hsaved] at hallocated
      obtain ⟨hclosed, hback⟩ := hallocated.closeScope
      simp only [Slots.after, Slots.closeScope, hsaved]
      exact ⟨hclosed, UInt16.le_trans hback hle⟩
  | declare name =>
    rcases s.after_declare_cases name with ⟨s', hbind, hafter⟩ | ⟨-, hafter⟩
    · obtain ⟨hfree, -, rfl⟩ := bind_eq_ok_iff.mp hbind
      rw [hafter]
      refine ⟨hallocated.bind name hfree, ?_⟩
      rw [UInt16.le_iff_toNat_le, toNat_max]
      exact Nat.le_max_right _ _
    · rw [hafter]
      exact ⟨hallocated, hle⟩

theorem InStep.afterAll {firstFree : UInt16} (history : List (Event String)) {s : Slots}
    (h : InStep firstFree s) : InStep firstFree (s.afterAll history) := by
  induction history generalizing s with
  | nil => exact h
  | cons e rest ih => exact ih (h.after e)

/-! ## The frame -/

theorem maxLocals_after (s : Slots) (e : Event String) : (s.after e).maxLocals.toNat =
    (s.granted? e).toList.foldl (fun n slot => max n (slot.toNat + 1)) s.maxLocals.toNat := by
  cases e with
  | openScope => rfl
  | closeScope => exact congrArg UInt16.toNat (closeScope_maxLocals s)
  | declare name =>
    rcases s.after_declare_cases name with ⟨s', hbind, hafter⟩ | ⟨hbind, hafter⟩
    · obtain ⟨hfree, -, rfl⟩ := bind_eq_ok_iff.mp hbind
      simp only [hafter, granted?, hbind, Except.toOption, Option.map_some, Option.toList_some,
        List.foldl_cons, List.foldl_nil, toNat_max, toNat_succ hfree]
    · simp only [hafter, granted?, hbind, Except.toOption, Option.map_none, Option.toList_none,
        List.foldl_nil]

theorem maxLocals_afterAll (history : List (Event String)) (s : Slots) :
    (s.afterAll history).maxLocals.toNat =
      (s.granted history).foldl (fun n slot => max n (slot.toNat + 1)) s.maxLocals.toNat := by
  induction history generalizing s with
  | nil => rfl
  | cons e rest ih =>
    exact (ih (s.after e)).trans (by rw [granted, List.foldl_append, maxLocals_after])

/-! ## Open scopes -/

theorem length_saved_after (s : Slots) (e : Event String) :
    (s.after e).saved.length = e.opens s.saved.length := by
  cases e with
  | openScope => rfl
  | closeScope =>
    simp only [after, closeScope, Event.opens]
    cases hsaved : s.saved with
    | nil => simp only [hsaved, List.length_nil]
    | cons back saved => rfl
  | declare name =>
    rcases s.after_declare_cases name with ⟨s', hbind, hafter⟩ | ⟨-, hafter⟩
    · obtain ⟨-, -, rfl⟩ := bind_eq_ok_iff.mp hbind
      rw [hafter]
      rfl
    · rw [hafter]
      rfl

theorem length_saved_afterAll (history : List (Event String)) (s : Slots) :
    (s.afterAll history).saved.length = history.foldl Event.opens s.saved.length := by
  induction history generalizing s with
  | nil => rfl
  | cons e rest ih => exact (ih (s.after e)).trans (by rw [length_saved_after, List.foldl_cons])

/-- Scopes that were opened and closed again have left nothing but what they needed of the frame. -/
theorem grows_of_balanced {history : List (Event String)} (h : Balanced history) (s : Slots) :
    Grows s (s.afterAll history) := by
  induction h generalizing s with
  | nil => exact .refl s
  | declare name _ ih =>
    refine Grows.trans ?_ (ih _)
    rcases s.after_declare_cases name with ⟨s', hbind, hafter⟩ | ⟨-, hafter⟩
    · rw [hafter]
      exact (bind_eq hbind).2.2.2.2
    · rw [hafter]
      exact .refl s
  | @scope inner rest _ _ ihinner ihrest =>
    have hinner : Grows s ((s.openScope.afterAll inner).closeScope) :=
      (ihinner s.openScope).closeScope
    refine hinner.trans ?_
    change Grows _ (s.openScope.afterAll (inner ++ .closeScope :: rest))
    rw [afterAll_append]
    exact ihrest _

theorem closeScope_of_balanced {inner : List (Event String)} (h : Balanced inner) (s : Slots) :
    s.afterAll (.openScope :: inner ++ [.closeScope]) =
      { s with maxLocals := (s.afterAll (.openScope :: inner ++ [.closeScope])).maxLocals } := by
  have hclose : s.afterAll (.openScope :: inner ++ [.closeScope]) =
      (s.openScope.afterAll inner).closeScope := afterAll_append s.openScope inner [.closeScope]
  have hgrows := grows_of_balanced h s.openScope
  rw [hclose, closeScope_maxLocals]
  exact hgrows.closeScope_eq

theorem closeScope_of_saved_nil {s : Slots} (h : s.saved = []) : s.closeScope = s := by
  simp only [closeScope, h]

/-! ## Any history -/

/-- The slots after any history, from the first one that is not reserved on. -/
theorem afterAll_allocates (firstFree : UInt16) (history : List (Event String)) :
    let s := (start firstFree).afterAll history
    (∀ name slot, s.get? name = some slot → firstFree ≤ slot ∧ slot < s.maxLocals) ∧
    (∀ name other slot, s.get? name = some slot → s.get? other = some slot → other = name) ∧
    (∀ name slot s', s.bind name = .ok (slot, s') → slot = s.next ∧ s'.get? name = some slot ∧
      ∀ other, other ≠ name → s'.get? other = s.get? other ∧ s.get? other ≠ some slot) ∧
    s.maxLocals.toNat = ((start firstFree).granted history).foldl
      (fun n slot => max n (slot.toNat + 1)) firstFree.toNat ∧
    (∀ inner, Balanced inner →
      let s' := s.afterAll (.openScope :: inner ++ [.closeScope])
      (∀ name, s'.get? name = s.get? name) ∧ s'.next = s.next ∧
        s' = { s with maxLocals := s'.maxLocals }) ∧
    (openScopes history = 0 → s.closeScope = s) ∧
    ∀ name, (∀ e, s.bind name = .error e ↔ s.next = 65535 ∧ e = .noSlot name) ∧
      (s.next = 65535 → s.after (.declare name) = s) := by
  intro s
  obtain ⟨hallocated, hnext⟩ : InStep firstFree s := (InStep.start firstFree).afterAll history
  refine ⟨fun name slot hslot => ?_, fun name other slot => hallocated.get?_inj,
    fun name slot s' hbind => ?_, maxLocals_afterAll history (start firstFree),
    fun inner hinner => ?_, fun hopen => ?_,
    fun name => ⟨fun e => bind_eq_error_iff, fun hfull => ?_⟩⟩
  · obtain ⟨hfirst, hlt⟩ := hallocated.get?_bounds hslot
    exact ⟨hfirst, UInt16.lt_of_lt_of_le hlt hnext⟩
  · obtain ⟨-, rfl, rfl⟩ := bind_eq_ok_iff.mp hbind
    refine ⟨rfl, (Scope.get?_insert ..).trans (if_pos rfl), fun other hother => ?_⟩
    exact ⟨(Scope.get?_insert ..).trans (if_neg hother), hallocated.get?_ne_next other⟩
  · have hclose := closeScope_of_balanced hinner s
    exact ⟨fun name => by rw [hclose]; rfl, by rw [hclose], hclose⟩
  · have hlength := length_saved_afterAll history (start firstFree)
    exact closeScope_of_saved_nil (List.length_eq_zero_iff.mp (hlength.trans hopen))
  · rcases s.after_declare_cases name with ⟨s', hbind, -⟩ | ⟨-, hafter⟩
    · exact absurd hfull (bind_eq_ok_iff.mp hbind).1
    · exact hafter

/-- A name, and a scope that binds it again. -/
def shadowing : List (Event String) := [.declare "x", .openScope, .declare "x"]

/-- Of three slots a third name gets the last one, and after that there is none. -/
theorem afterAll_allocates_shadowing :
    let s := (start 65532).afterAll shadowing
    let full := (start 65532).afterAll (shadowing ++ [.declare "y"])
    s.get? "x" = some 65533 ∧ (65532 ≤ (65533 : UInt16) ∧ 65533 < s.maxLocals) ∧
      (∃ s', s.bind "y" = .ok (65534, s') ∧ s'.get? "y" = some 65534 ∧ s.get? "x" ≠ some 65534) ∧
      full.bind "z" = .error (.noSlot "z") ∧ full.after (.declare "z") = full ∧
      (full.afterAll [.openScope, .declare "z", .closeScope]).get? "x" = some 65533 ∧
      (full.closeScope.closeScope).get? "x" = some 65532 := by
  intro s full
  obtain ⟨hbounds, -, hbind, -⟩ := afterAll_allocates 65532 shadowing
  obtain ⟨-, -, -, -, hscope, -, hfull⟩ := afterAll_allocates 65532 (shadowing ++ [.declare "y"])
  have hx : s.get? "x" = some 65533 := by decide
  obtain ⟨s', hs'⟩ : ∃ s', s.bind "y" = .ok (65534, s') := ⟨_, rfl⟩
  obtain ⟨-, hy, hothers⟩ := hbind "y" 65534 s' hs'
  have hnext : full.next = 65535 := by decide
  have hz : full.bind "z" = .error (.noSlot "z") := ((hfull "z").1 _).mpr ⟨hnext, rfl⟩
  refine ⟨hx, hbounds "x" 65533 hx, ⟨s', hs', hy, (hothers "x" (by decide)).2⟩, hz,
    (hfull "z").2 hnext, ?_, by decide⟩
  have hinner : Balanced [Event.declare "z"] := .declare "z" .nil
  exact ((hscope _ hinner).1 "x").trans (by decide)

end PZero.Lowering.Slots
