import PZero.Proofs.Lookup

/-! # Histories of scopes

Scopes are opened and closed and names are bound, in any order. What a name stands for in the
end can be told from the history alone: it is what was bound to it last, among the bindings of
which the scope has not been closed since. A scope that is opened and closed again leaves
nothing behind.
-/
namespace PZero.Scope

/-! ## Histories -/

/-- A scope is opened or closed, or something is declared in the innermost one. -/
inductive Event (α : Type)
  | openScope
  | closeScope
  | declare (a : α)

variable {α : Type}

/-- How the number of open scopes changes; it does not fall below zero. -/
def Event.opens (open' : Nat) : Event α → Nat
  | openScope => open' + 1
  | closeScope => open' - 1
  | declare _ => open'

/-- How many scopes are open in the end. -/
def openScopes (history : List (Event α)) : Nat := history.foldl Event.opens 0

/-- Every scope that is opened is closed again, and no other scope is closed. -/
inductive Balanced : List (Event α) → Prop
  | nil : Balanced []
  | declare (a : α) {rest} : Balanced rest → Balanced (.declare a :: rest)
  | scope {inner rest} : Balanced inner → Balanced rest →
      Balanced (.openScope :: inner ++ .closeScope :: rest)

theorem openScopes_concat (history : List (Event α)) (e : Event α) :
    openScopes (history ++ [e]) = e.opens (openScopes history) :=
  List.foldl_append

/-! ## Bindings of a history -/

/-- How many scopes are open when the event at an index comes. -/
def openBefore (history : List (Event α)) (i : Nat) : Nat := openScopes (history.take i)

/-- The event at the index binds the name, and the scope that was innermost then has not been
closed since: at no later time are fewer scopes open than there were then. -/
structure Bound (history : List (Event (String × α))) (name : String) (i : Nat) (a : α) :
    Prop where
  declared : history[i]? = some (.declare (name, a))
  unclosed : ∀ j, i ≤ j → openBefore history i ≤ openBefore history j

variable {history : List (Event (String × α))} {e : Event (String × α)} {name : String}
  {i d : Nat} {a : α}

theorem openBefore_of_length_le (h : history.length ≤ i) :
    openBefore history i = openScopes history := by
  rw [openBefore, List.take_of_length_le h]

theorem openBefore_concat (h : i ≤ history.length) :
    openBefore (history ++ [e]) i = openBefore history i := by
  rw [openBefore, List.take_append_of_le_length h, openBefore]

theorem openBefore_length (history : List (Event (String × α))) :
    openBefore history history.length = openScopes history :=
  openBefore_of_length_le (Nat.le_refl _)

theorem openBefore_concat_of_lt (h : history.length < i) :
    openBefore (history ++ [e]) i = openScopes (history ++ [e]) := by
  refine openBefore_of_length_le ?_
  rw [List.length_append, List.length_singleton]
  omega

/-- From an index on, a number of scopes stays open when it did so before the last event and is
open after it. -/
theorem le_openBefore_concat_iff (hi : i ≤ history.length) :
    (∀ j, i ≤ j → d ≤ openBefore (history ++ [e]) j) ↔
      (∀ j, i ≤ j → d ≤ openBefore history j) ∧ d ≤ openScopes (history ++ [e]) := by
  constructor
  · intro h
    refine ⟨fun j hj => ?_, ?_⟩
    · rcases Nat.le_total j history.length with hle | hle
      · exact openBefore_concat hle ▸ h j hj
      · rw [openBefore_of_length_le hle, ← openBefore_length, ← openBefore_concat (Nat.le_refl _)]
        exact h _ hi
    · exact openBefore_length (history ++ [e]) ▸ h _ (by rw [List.length_append]; omega)
  · rintro ⟨h, hlast⟩ j hj
    rcases Nat.lt_or_ge history.length j with hlt | hge
    · rw [openBefore_concat_of_lt hlt]
      exact hlast
    · rw [openBefore_concat hge]
      exact h j hj

namespace Bound

theorem lt_length (h : Bound history name i a) : i < history.length :=
  (List.getElem?_eq_some_iff.mp h.declared).1

theorem openBefore_le (h : Bound history name i a) : openBefore history i ≤ openScopes history :=
  openBefore_length history ▸ h.unclosed _ (Nat.le_of_lt h.lt_length)

theorem unique {b : α} (h : Bound history name i a) (h' : Bound history name i b) : a = b := by
  have heq := h.declared.symm.trans h'.declared
  cases heq
  rfl

theorem concat_iff (hi : i < history.length) : Bound (history ++ [e]) name i a ↔
    Bound history name i a ∧ openBefore history i ≤ openScopes (history ++ [e]) := by
  have hle := Nat.le_of_lt hi
  constructor
  · rintro ⟨hdeclared, hunclosed⟩
    rw [List.getElem?_append_left hi] at hdeclared
    rw [openBefore_concat hle, le_openBefore_concat_iff hle] at hunclosed
    exact ⟨⟨hdeclared, hunclosed.1⟩, hunclosed.2⟩
  · rintro ⟨⟨hdeclared, hunclosed⟩, hlast⟩
    refine ⟨?_, ?_⟩
    · rw [List.getElem?_append_left hi, hdeclared]
    · rw [openBefore_concat hle, le_openBefore_concat_iff hle]
      exact ⟨hunclosed, hlast⟩

theorem last_iff : Bound (history ++ [e]) name history.length a ↔ e = .declare (name, a) := by
  constructor
  · rintro ⟨hdeclared, -⟩
    rw [List.getElem?_concat_length] at hdeclared
    exact Option.some.inj hdeclared
  · rintro rfl
    refine ⟨List.getElem?_concat_length, ?_⟩
    rw [openBefore_concat (Nat.le_refl _), le_openBefore_concat_iff (Nat.le_refl _),
      openBefore_length, openScopes_concat]
    exact ⟨fun j hj => Nat.le_of_eq (openBefore_of_length_le hj).symm, Nat.le_refl _⟩

end Bound

/-- A binding in the scope that lies inside of `d` others. -/
def BoundAt (history : List (Event (String × α))) (name : String) (d i : Nat) (a : α) : Prop :=
  Bound history name i a ∧ openBefore history i = d

/-- The last event adds a binding, or closes what is deeper than the scopes that it leaves open. -/
theorem boundAt_concat : BoundAt (history ++ [e]) name d i a ↔
    (BoundAt history name d i a ∧ d ≤ openScopes (history ++ [e])) ∨
      (i = history.length ∧ d = openScopes history ∧ e = .declare (name, a)) := by
  unfold BoundAt
  rcases Nat.lt_trichotomy i history.length with hlt | rfl | hgt
  · rw [Bound.concat_iff hlt, openBefore_concat (Nat.le_of_lt hlt)]
    constructor
    · rintro ⟨⟨h, hle⟩, rfl⟩
      exact .inl ⟨⟨h, rfl⟩, hle⟩
    · rintro (⟨⟨h, rfl⟩, hle⟩ | ⟨rfl, -⟩)
      · exact ⟨⟨h, hle⟩, rfl⟩
      · exact absurd hlt (Nat.lt_irrefl _)
  · rw [Bound.last_iff, openBefore_concat (Nat.le_refl _), openBefore_length]
    constructor
    · rintro ⟨rfl, rfl⟩
      exact .inr ⟨rfl, rfl, rfl⟩
    · rintro (⟨⟨h, -⟩, -⟩ | ⟨-, rfl, rfl⟩)
      · exact absurd h.lt_length (Nat.lt_irrefl _)
      · exact ⟨rfl, rfl⟩
  · constructor
    · rintro ⟨h, -⟩
      have hlt := h.lt_length
      rw [List.length_append, List.length_singleton] at hlt
      omega
    · rintro (⟨⟨h, -⟩, -⟩ | ⟨rfl, -⟩)
      · exact absurd h.lt_length (Nat.lt_asymm hgt)
      · exact absurd hgt (Nat.lt_irrefl _)

/-- An event that binds another name, or in another scope, changes nothing about a scope that it
leaves open. -/
theorem boundAt_concat_of_ne (hd : d ≤ openScopes (history ++ [e]))
    (he : d = openScopes history → e ≠ .declare (name, a)) :
    BoundAt (history ++ [e]) name d i a ↔ BoundAt history name d i a := by
  rw [boundAt_concat]
  constructor
  · rintro (⟨h, -⟩ | ⟨-, hopen, hdeclare⟩)
    · exact h
    · exact absurd hdeclare (he hopen)
  · exact fun h => .inl ⟨h, hd⟩

/-! ## Tables -/

/-- A table after an event; what is declared is a name with what it stands for. -/
def after (s : Scope α) : Event (String × α) → Scope α
  | .openScope => s.openScope
  | .closeScope => s.closeScope
  | .declare (name, a) => s.insert name a

def afterAll (s : Scope α) (history : List (Event (String × α))) : Scope α :=
  history.foldl after s

theorem afterAll_append (s : Scope α) (history history' : List (Event (String × α))) :
    s.afterAll (history ++ history') = (s.afterAll history).afterAll history' :=
  List.foldl_append

theorem length_enclosing_after (s : Scope α) (e : Event (String × α)) :
    (s.after e).enclosing.length = e.opens s.enclosing.length := by
  cases e with
  | openScope => rfl
  | closeScope =>
    obtain ⟨current, enclosing⟩ := s
    cases enclosing <;> rfl
  | declare p => rfl

theorem length_enclosing_afterAll (history : List (Event (String × α))) :
    (afterAll {} history : Scope α).enclosing.length = openScopes history := by
  induction history using List.reverseRecOn with
  | nil => rfl
  | append_singleton history e ih =>
    rw [afterAll_append, openScopes_concat, ← ih]
    exact length_enclosing_after _ e

/-- A table that encloses nothing has no scope to close. -/
theorem closeScope_of_enclosing_nil {s : Scope α} (h : s.enclosing = []) : s.closeScope = s := by
  simp only [closeScope, h]

theorem closeScope_insert {s : Scope α} (h : s.enclosing ≠ []) (name : String) (a : α) :
    (s.insert name a).closeScope = s.closeScope := by
  simp only [closeScope, insert]
  cases henclosing : s.enclosing with
  | nil => exact absurd henclosing h
  | cons frame rest => rfl

/-! ## What a table shows -/

/-- The latest of some bindings, which are numbered by their places in a history. -/
def Latest (P : Nat → α → Prop) : Option α → Prop
  | some a => ∃ i, P i a ∧ ∀ j b, P j b → j ≤ i
  | none => ∀ i a, ¬ P i a

/-- A table shows of a name what its history says, if the scopes deeper than `d` are left out. -/
structure Shows (history : List (Event (String × α))) (name : String) (d : Nat) (s : Scope α) :
    Prop where
  latest : Latest (fun i a => ∃ d' ≤ d, BoundAt history name d' i a) (s.get? name)
  current : s.inCurrent name = true ↔ ∃ i a, BoundAt history name d i a

/-- Only the bindings in the scopes that are not left out matter. -/
theorem Shows.congr {history' : List (Event (String × α))} {s : Scope α}
    (h : Shows history name d s)
    (hb : ∀ d' ≤ d, ∀ i a, BoundAt history' name d' i a ↔ BoundAt history name d' i a) :
    Shows history' name d s := by
  have hvisible : (fun i a => ∃ d' ≤ d, BoundAt history' name d' i a) =
      fun i a => ∃ d' ≤ d, BoundAt history name d' i a := by
    funext i a
    exact propext (exists_congr fun d' => and_congr_right fun hd => hb d' hd i a)
  refine ⟨hvisible ▸ h.latest, h.current.trans ?_⟩
  exact exists_congr fun i => exists_congr fun a => (hb d (Nat.le_refl d) i a).symm

theorem inCurrent_insert_self (s : Scope α) (name : String) (a : α) :
    (s.insert name a).inCurrent name = true := by
  rw [inCurrent, insert, lookup_cons_ite, if_pos rfl]
  rfl

theorem inCurrent_insert_of_ne (s : Scope α) {name other : String} (a : α) (h : other ≠ name) :
    (s.insert name a).inCurrent other = s.inCurrent other := by
  rw [inCurrent, insert, lookup_cons_ite, if_neg h, inCurrent]

namespace Shows
variable {s : Scope α}

/-- Nothing is bound in a new scope, so that its table shows what the one around it does. -/
theorem openScope (h : Shows history name (openScopes history) s) :
    Shows (history ++ [.openScope]) name (openScopes history + 1) s.openScope := by
  have hbound : ∀ d ≤ openScopes history + 1, ∀ i a,
      BoundAt (history ++ [.openScope]) name d i a ↔ BoundAt history name d i a := fun d hd i a =>
    boundAt_concat_of_ne (by rw [openScopes_concat]; exact hd) fun _ => nofun
  have hnew : ∀ i a, ¬ BoundAt history name (openScopes history + 1) i a := fun i a ⟨h, hd⟩ =>
    absurd (hd ▸ h.openBefore_le) (Nat.not_succ_le_self _)
  have hvisible : (fun i a => ∃ d ≤ openScopes history + 1,
      BoundAt (history ++ [.openScope]) name d i a) =
      fun i a => ∃ d ≤ openScopes history, BoundAt history name d i a := by
    funext i a
    refine propext ⟨fun ⟨d, hd, h⟩ => ?_, fun ⟨d, hd, h⟩ => ?_⟩
    · have hat := (hbound d hd i a).mp h
      exact ⟨d, hat.2 ▸ hat.1.openBefore_le, hat⟩
    · have hle := Nat.le_succ_of_le hd
      exact ⟨d, hle, (hbound d hle i a).mpr h⟩
  refine ⟨?_, ?_⟩
  · rw [hvisible, get?_openScope]
    exact h.latest
  · constructor
    · intro hnone
      cases hnone
    · rintro ⟨i, a, h⟩
      exact absurd ((hbound _ (Nat.le_refl _) i a).mp h) (hnew i a)

theorem insert (h : Shows history name (openScopes history) s) (other : String) (b : α) :
    Shows (history ++ [.declare (other, b)]) name (openScopes history) (s.insert other b) := by
  by_cases hname : name = other
  · subst hname
    have hlast : BoundAt (history ++ [.declare (name, b)]) name (openScopes history)
        history.length b := boundAt_concat.mpr (.inr ⟨rfl, rfl, rfl⟩)
    refine ⟨?_, ?_⟩
    · rw [get?_insert, if_pos rfl]
      refine ⟨_, ⟨_, Nat.le_refl _, hlast⟩, fun j c ⟨d, _, hj⟩ => ?_⟩
      have hlt := hj.1.lt_length
      rw [List.length_append, List.length_singleton] at hlt
      exact Nat.le_of_lt_succ hlt
    · exact iff_of_true (inCurrent_insert_self s name b) ⟨_, _, hlast⟩
  · have hcongr : Shows (history ++ [.declare (other, b)]) name (openScopes history) s := by
      refine h.congr fun d hd i a => boundAt_concat_of_ne ?_ fun _ heq => ?_
      · rw [openScopes_concat]
        exact hd
      · cases heq
        exact hname rfl
    refine ⟨?_, ?_⟩
    · rw [get?_insert, if_neg hname]
      exact hcongr.latest
    · rw [inCurrent_insert_of_ne s b hname]
      exact hcongr.current

/-- Opening or closing a scope changes nothing about the scopes that are open then. -/
theorem concat (h : Shows history name d s) (hd : d ≤ openScopes (history ++ [e]))
    (he : ∀ p, e ≠ .declare p) : Shows (history ++ [e]) name d s :=
  h.congr fun _ hd' _ _ => boundAt_concat_of_ne (Nat.le_trans hd' hd) fun _ => he _

end Shows

/-- The table is right about a name, and will be when any number of scopes are closed. -/
def Agrees (history : List (Event (String × α))) (name : String) (s : Scope α) : Prop :=
  ∀ j, Shows history name (openScopes history - j) (closeScope^[j] s)

namespace Agrees
variable {s : Scope α}

theorem start (name : String) : Agrees [] name ({} : Scope α) := by
  intro j
  have hnone : ∀ d i (a : α), ¬ BoundAt [] name d i a := fun d i a h =>
    absurd h.1.lt_length (Nat.not_lt_zero i)
  have hclose : closeScope^[j] ({} : Scope α) = {} := Function.iterate_fixed rfl j
  rw [hclose]
  refine ⟨fun i a ⟨d, _, h⟩ => hnone d i a h, ?_⟩
  exact iff_of_false Bool.false_ne_true fun ⟨i, a, h⟩ => hnone _ i a h

theorem openScope (h : Agrees history name s) :
    Agrees (history ++ [.openScope]) name s.openScope := by
  intro j
  have hopen : openScopes (history ++ [.openScope]) = openScopes history + 1 :=
    openScopes_concat history .openScope
  cases j with
  | zero => exact hopen ▸ (h 0).openScope
  | succ j =>
    rw [hopen, Nat.add_sub_add_right, Function.iterate_succ_apply, closeScope_openScope]
    exact (h j).concat (by omega) nofun

theorem closeScope (h : Agrees history name s) :
    Agrees (history ++ [.closeScope]) name s.closeScope := by
  intro j
  have hopen : openScopes (history ++ [.closeScope]) = openScopes history - 1 :=
    openScopes_concat history .closeScope
  rw [hopen, Nat.sub_sub, Nat.add_comm 1 j, ← Function.iterate_succ_apply]
  exact (h (j + 1)).concat (by omega) nofun

theorem insert (h : Agrees history name s) (hlength : s.enclosing.length = openScopes history)
    (other : String) (b : α) :
    Agrees (history ++ [.declare (other, b)]) name (s.insert other b) := by
  intro j
  have hopen : openScopes (history ++ [.declare (other, b)]) = openScopes history :=
    openScopes_concat history (.declare (other, b))
  have hzero : Shows (history ++ [.declare (other, b)]) name (openScopes history)
      (s.insert other b) := (h 0).insert other b
  rw [hopen]
  by_cases henclosing : s.enclosing = []
  · -- No scope is open, and closing one changes nothing.
    have hnone : openScopes history = 0 := by rw [← hlength, henclosing, List.length_nil]
    have hfixed : (s.insert other b).closeScope = s.insert other b :=
      closeScope_of_enclosing_nil henclosing
    rw [Function.iterate_fixed hfixed, hnone, Nat.zero_sub]
    exact hnone ▸ hzero
  · cases j with
    | zero => exact hzero
    | succ j =>
      have hpos : 0 < openScopes history := hlength ▸ List.length_pos_of_ne_nil henclosing
      rw [Function.iterate_succ_apply, closeScope_insert henclosing, ← Function.iterate_succ_apply]
      refine (h (j + 1)).congr fun d hd i a => boundAt_concat_of_ne ?_ fun heq => ?_
      · omega
      · omega

theorem afterAll (history : List (Event (String × α))) (name : String) :
    Agrees history name (.afterAll {} history) := by
  induction history using List.reverseRecOn with
  | nil => exact start name
  | append_singleton history e ih =>
    have hlength := length_enclosing_afterAll history
    rw [afterAll_append]
    cases e with
    | openScope => exact ih.openScope
    | closeScope => exact ih.closeScope
    | declare p => exact ih.insert hlength p.1 p.2

end Agrees

/-! ## Scopes that are closed again -/

theorem closeScope_of_enclosing {s s' : Scope α} (h : s.enclosing = s'.current :: s'.enclosing) :
    s.closeScope = s' := by
  simp only [closeScope, h]

theorem enclosing_of_balanced {inner : List (Event (String × α))} (h : Balanced inner)
    (s : Scope α) : (s.afterAll inner).enclosing = s.enclosing := by
  induction h generalizing s with
  | nil => rfl
  | declare p _ ih => exact ih (s.insert p.1 p.2)
  | @scope inner rest _ _ ihinner ihrest =>
    have hclose : (s.openScope.afterAll inner).closeScope = s :=
      closeScope_of_enclosing (ihinner s.openScope)
    have hall : s.afterAll (.openScope :: inner ++ .closeScope :: rest) =
        (s.openScope.afterAll inner).closeScope.afterAll rest :=
      afterAll_append s.openScope inner (.closeScope :: rest)
    rw [hall, hclose]
    exact ihrest s

theorem afterAll_of_balanced {inner : List (Event (String × α))} (h : Balanced inner)
    (s : Scope α) : s.afterAll (.openScope :: inner ++ [.closeScope]) = s := by
  have hall : s.afterAll (.openScope :: inner ++ [.closeScope]) =
      (s.openScope.afterAll inner).closeScope := afterAll_append s.openScope inner [.closeScope]
  rw [hall]
  exact closeScope_of_enclosing (enclosing_of_balanced h s.openScope)

/-! ## Any history -/

namespace Shows
variable {s : Scope α}

theorem bound_iff : (∃ d ≤ openScopes history, BoundAt history name d i a) ↔
    Bound history name i a :=
  ⟨fun ⟨_, _, h⟩ => h.1, fun h => ⟨_, h.openBefore_le, h, rfl⟩⟩

theorem get?_eq_some_iff (h : Shows history name (openScopes history) s) :
    s.get? name = some a ↔
      ∃ i, Bound history name i a ∧ ∀ j b, Bound history name j b → j ≤ i := by
  have hlatest := h.latest
  simp only [bound_iff] at hlatest
  constructor
  · intro ha
    rw [ha] at hlatest
    exact hlatest
  · rintro ⟨i, hi, hmax⟩
    cases hget : s.get? name with
    | none =>
      rw [hget] at hlatest
      exact absurd hi (hlatest i a)
    | some b =>
      rw [hget] at hlatest
      obtain ⟨j, hj, hmax'⟩ := hlatest
      obtain rfl : j = i := Nat.le_antisymm (hmax j b hj) (hmax' i a hi)
      rw [hj.unique hi]

theorem get?_eq_none_iff (h : Shows history name (openScopes history) s) :
    s.get? name = none ↔ ∀ i a, ¬ Bound history name i a := by
  have hlatest := h.latest
  simp only [bound_iff] at hlatest
  constructor
  · intro hnone
    rw [hnone] at hlatest
    exact hlatest
  · intro hnone
    cases hget : s.get? name with
    | none => rfl
    | some a =>
      rw [hget] at hlatest
      obtain ⟨i, hi, -⟩ := hlatest
      exact absurd hi (hnone i a)

end Shows

/-- What a table shows after any history: of each name the last binding that is still in force. -/
theorem table_of_history (history : List (Event (String × α))) :
    let s : Scope α := .afterAll {} history
    (∀ name a, s.get? name = some a ↔
      ∃ i, Bound history name i a ∧ ∀ j b, Bound history name j b → j ≤ i) ∧
    (∀ name, s.get? name = none ↔ ∀ i a, ¬ Bound history name i a) ∧
    (∀ name, s.inCurrent name = true ↔
      ∃ i a, Bound history name i a ∧ openBefore history i = openScopes history) ∧
    s.depth = openScopes history + 1 ∧
    ∀ inner, Balanced inner →
      let s' := s.afterAll (.openScope :: inner ++ [.closeScope])
      ∀ name, s'.get? name = s.get? name ∧ s'.inCurrent name = s.inCurrent name := by
  intro s
  have hshows : ∀ name, Shows history name (openScopes history) s := fun name =>
    Agrees.afterAll history name 0
  refine ⟨fun name a => (hshows name).get?_eq_some_iff, fun name => (hshows name).get?_eq_none_iff,
    fun name => (hshows name).current, ?_, fun inner hinner => ?_⟩
  · rw [depth, length_enclosing_afterAll]
  · intro s' name
    have hsame : s' = s := afterAll_of_balanced hinner s
    exact ⟨by rw [hsame], by rw [hsame]⟩

/-- A name, the same name in a scope that is closed again, and a surplus close. -/
def surplus : List (Event (String × Nat)) :=
  [.declare ("x", 1), .openScope, .declare ("x", 2), .closeScope, .closeScope]

theorem table_of_history_surplus :
    let s : Scope Nat := .afterAll {} surplus
    s.get? "x" = some 1 ∧ Bound surplus "x" 0 1 ∧ (∀ a, ¬ Bound surplus "x" 2 a) ∧
      s.inCurrent "x" = true ∧ s.get? "y" = none ∧ s.depth = 1 ∧
      Balanced [Event.declare ("x", 3)] ∧
      (s.afterAll [.openScope, .declare ("x", 3), .closeScope]).get? "x" = some 1 := by
  intro s
  obtain ⟨hsome, -, -, hdepth, hscope⟩ := table_of_history surplus
  have hx : s.get? "x" = some 1 := by decide
  obtain ⟨i, hi, hmax⟩ := (hsome "x" 1).mp hx
  obtain rfl : i = 0 := by
    have hlt : i < 5 := hi.lt_length
    interval_cases i
    · rfl
    all_goals exact nomatch hi.declared
  have hinner : Balanced [Event.declare ("x", 3)] := .declare _ .nil
  refine ⟨hx, hi, fun a ha => absurd (hmax 2 a ha) (by decide), by decide, by decide, hdepth,
    hinner, ?_⟩
  exact ((hscope _ hinner "x").1).trans hx

end PZero.Scope
