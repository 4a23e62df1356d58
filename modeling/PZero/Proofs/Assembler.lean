import PZero.Proofs.Lowering.Labels

/-! # What an assembler makes of its requests

An assembler is asked to make labels, to place them, and to emit instructions and
jumps, in any order. Its history alone says which labels have a place and how many
instructions come before it. Finishing gives every jump that number as its target, or
fails for the first jump whose label has no place.
-/
namespace PZero.Bytecode.Assembler
open Lowering (Emits)

/-! ## Histories -/

inductive Request
  | newLabel
  | place (l : Label)
  | emit (i : Instruction)
  | jump (condition : Option Condition) (l : Label)
  | jumpCompare (condition : Condition) (l : Label)
  deriving DecidableEq

namespace Request

/-- The label that a jump goes to. -/
def label? : Request → Option Label
  | jump _ l | jumpCompare _ l => some l
  | newLabel | place _ | emit _ => none

/-- Whether an instruction is asked for. -/
def emits : Request → Bool
  | emit _ | jump .. | jumpCompare .. => true
  | newLabel | place _ => false

end Request

/-- The assembler after a request; a placement that is refused changes nothing. -/
def after (a : Assembler) : Request → Assembler
  | .newLabel => a.newLabel.2
  | .place l =>
    match a.place l with
    | .ok a' => a'
    | .error _ => a
  | .emit i => a.emit i
  | .jump condition l => a.jump condition l
  | .jumpCompare condition l => a.jumpCompare condition l

/-- An assembler that served the requests of a history from the start. -/
def served (history : List Request) : Assembler := history.foldl after {}

/-- How many labels were made. -/
def created (history : List Request) : Nat := history.count .newLabel

/-- How many instructions were emitted. -/
def emitted (history : List Request) : Nat := history.countP Request.emits

/-- The label with the id was made, and later asked to be placed. -/
def Placed (history : List Request) (id : UInt32) : Prop :=
  ∃ before after, history = before ++ Request.place ⟨id⟩ :: after ∧ id.toNat < created before

/-- The label with the id was placed, for the first time, behind `n` instructions. -/
def PlacedAt (history : List Request) (id : UInt32) (n : Nat) : Prop :=
  ∃ before after, history = before ++ Request.place ⟨id⟩ :: after ∧ id.toNat < created before ∧
    ¬ Placed before id ∧ emitted before = n

/-- The instruction that stands for a request in the end: jumps go to where their label was
placed. -/
inductive Realizes (history : List Request) : Request → Instruction → Prop
  | emit (i : Instruction) : Realizes history (.emit i) i
  | goto {l : Label} {t : UInt32} : PlacedAt history l.id t.toNat →
      Realizes history (.jump none l) (.goto t)
  | ifZero (condition : Condition) {l : Label} {t : UInt32} : PlacedAt history l.id t.toNat →
      Realizes history (.jump (some condition) l) (.ifZero condition t)
  | ifCompare (condition : Condition) {l : Label} {t : UInt32} : PlacedAt history l.id t.toNat →
      Realizes history (.jumpCompare condition l) (.ifCompare condition t)

section
variable {history : List Request} {r : Request} {id : UInt32} {n : Nat}

/-- What is found in a history that goes on with a request is found before, or is the request. -/
theorem snoc_eq_append_cons {x : Request} {before after : List Request} :
    history ++ [r] = before ++ x :: after ↔
      (∃ after', after = after' ++ [r] ∧ history = before ++ x :: after') ∨
      (after = [] ∧ before = history ∧ x = r) := by
  constructor
  · intro h
    rcases List.eq_nil_or_concat after with rfl | ⟨after', last, rfl⟩
    · obtain ⟨rfl, hx⟩ := List.append_inj' h rfl
      exact .inr ⟨rfl, rfl, (List.singleton_inj.mp hx).symm⟩
    · rw [List.concat_eq_append, ← List.cons_append, ← List.append_assoc] at h
      obtain ⟨rfl, hlast⟩ := List.append_inj' h rfl
      rw [List.singleton_inj.mp hlast]
      exact .inl ⟨after', List.concat_eq_append, rfl⟩
  · rintro (⟨after', rfl, rfl⟩ | ⟨rfl, rfl, rfl⟩)
    · rw [List.append_assoc, List.cons_append]
    · rfl

theorem placed_snoc : Placed (history ++ [r]) id ↔
    Placed history id ∨ r = .place ⟨id⟩ ∧ id.toNat < created history := by
  simp only [Placed, snoc_eq_append_cons]
  constructor
  · rintro ⟨before, after, ⟨after', -, rfl⟩ | ⟨-, rfl, rfl⟩, hid⟩
    · exact .inl ⟨before, after', rfl, hid⟩
    · exact .inr ⟨rfl, hid⟩
  · rintro (⟨before, after, rfl, hid⟩ | ⟨rfl, hid⟩)
    · exact ⟨before, after ++ [r], .inl ⟨after, rfl, rfl⟩, hid⟩
    · exact ⟨history, [], .inr ⟨rfl, rfl, rfl⟩, hid⟩

theorem placedAt_snoc : PlacedAt (history ++ [r]) id n ↔ PlacedAt history id n ∨
    r = .place ⟨id⟩ ∧ id.toNat < created history ∧ ¬ Placed history id ∧ emitted history = n := by
  simp only [PlacedAt, snoc_eq_append_cons]
  constructor
  · rintro ⟨before, after, ⟨after', -, rfl⟩ | ⟨-, rfl, rfl⟩, hid⟩
    · exact .inl ⟨before, after', rfl, hid⟩
    · exact .inr ⟨rfl, hid⟩
  · rintro (⟨before, after, rfl, hid⟩ | ⟨rfl, hid⟩)
    · exact ⟨before, after ++ [r], .inl ⟨after, rfl, rfl⟩, hid⟩
    · exact ⟨history, [], .inr ⟨rfl, rfl, rfl⟩, hid⟩

theorem not_placed_nil : ¬ Placed [] id := by
  rintro ⟨before, after, h, -⟩
  exact List.append_ne_nil_of_right_ne_nil before (List.cons_ne_nil _ _) h.symm

/-- A label that was placed was placed a first time. -/
theorem placed_iff : Placed history id ↔ ∃ n, PlacedAt history id n := by
  induction history using List.reverseRecOn with
  | nil =>
    refine iff_of_false not_placed_nil ?_
    rintro ⟨n, before, after, h, -⟩
    exact List.append_ne_nil_of_right_ne_nil before (List.cons_ne_nil _ _) h.symm
  | append_singleton history r ih =>
    simp only [placed_snoc, placedAt_snoc, exists_or, ← ih]
    by_cases h : Placed history id
    · simp only [h, true_or]
    · simp only [h, false_or, not_false_eq_true, true_and, exists_and_left, exists_eq', and_true]

theorem emitted_snoc : emitted (history ++ [r]) = emitted history + if r.emits then 1 else 0 := by
  rw [emitted, List.countP_append, List.countP_singleton]
  rfl

theorem created_snoc :
    created (history ++ [r]) = created history + if r = .newLabel then 1 else 0 := by
  rw [created, List.count_append, List.count_singleton]
  simp only [beq_iff_eq]
  rfl

theorem PlacedAt.le (h : PlacedAt history id n) : n ≤ emitted history := by
  obtain ⟨before, after, rfl, -, -, rfl⟩ := h
  rw [emitted, emitted, List.countP_append]
  exact Nat.le_add_right _ _

/-- A label is placed once. -/
theorem PlacedAt.unique {n' : Nat} (h : PlacedAt history id n) (h' : PlacedAt history id n') :
    n = n' := by
  induction history using List.reverseRecOn with
  | nil => exact (not_placed_nil (placed_iff.mpr ⟨n, h⟩)).elim
  | append_singleton history r ih =>
    rcases placedAt_snoc.mp h with h | ⟨-, -, hfirst, hn⟩
    · rcases placedAt_snoc.mp h' with h' | ⟨-, -, hfirst, -⟩
      · exact ih h h'
      · exact (hfirst (placed_iff.mpr ⟨n, h⟩)).elim
    · rcases placedAt_snoc.mp h' with h' | ⟨-, -, -, hn'⟩
      · exact (hfirst (placed_iff.mpr ⟨n', h'⟩)).elim
      · exact hn.symm.trans hn'

end

/-! ## What is noted down -/

/-- The tables of an assembler tell what its history tells. -/
structure Notes (a : Assembler) (history : List Request) : Prop where
  code : a.code.length = emitted history
  labels : a.labels.length = created history
  placed : ∀ {id n}, PlacedAt history id n → a.labels[id.toNat]? = some (some (UInt32.ofNat n))
  unplaced : ∀ {id}, id.toNat < created history → ¬ Placed history id →
    a.labels[id.toNat]? = some none
  jumps : ∀ jump ∈ a.jumps, jump.1 < a.code.length

/-- A label has been made and has no place, or it is refused one. -/
theorem place_cases (history : List Request) (l : Label) :
    (l.id.toNat < created history ∧ ¬ Placed history l.id) ∨
      (created history ≤ l.id.toNat ∨ Placed history l.id) := by
  by_cases hplaced : Placed history l.id
  · exact .inr (.inr hplaced)
  · exact (Nat.lt_or_ge l.id.toNat (created history)).imp (⟨·, hplaced⟩) .inl

namespace Notes
variable {a : Assembler} {history : List Request} (h : Notes a history)
include h

theorem place_ok {l : Label} (hmade : l.id.toNat < created history) (hl : ¬ Placed history l.id) :
    a.place l = .ok
      { a with labels := a.labels.set l.id.toNat (some (UInt32.ofNat (emitted history))) } := by
  simp only [place, h.unplaced hmade hl, h.code]

theorem place_error {l : Label} (hl : created history ≤ l.id.toNat ∨ Placed history l.id) :
    a.place l = .error (.labelPlacedTwice l.id) := by
  rcases hl with hmade | hplaced
  · have hnone : a.labels[l.id.toNat]? = none := List.getElem?_eq_none (h.labels ▸ hmade)
    simp only [place, hnone]
  · obtain ⟨n, hn⟩ := placed_iff.mp hplaced
    simp only [place, h.placed hn]

theorem place_error_iff (l : Label) : (∃ e, a.place l = .error e) ↔
    created history ≤ l.id.toNat ∨ Placed history l.id := by
  rcases place_cases history l with ⟨hmade, hl⟩ | hrefused
  · refine iff_of_false ?_ (not_or.mpr ⟨Nat.not_le.mpr hmade, hl⟩)
    rintro ⟨e, he⟩
    cases (h.place_ok hmade hl).symm.trans he
  · exact iff_of_true ⟨_, h.place_error hrefused⟩ hrefused

theorem newLabel : Notes a.newLabel.2 (history ++ [Request.newLabel]) := by
  have hcreated : created (history ++ [Request.newLabel]) = created history + 1 := created_snoc
  refine ⟨h.code.trans (by simp [emitted_snoc, Request.emits]), ?_, fun hn => ?_,
    fun {id} hmade hl => ?_, h.jumps⟩
  · rw [hcreated, ← h.labels]
    exact List.length_append
  · obtain hn | ⟨⟨⟩, -⟩ := placedAt_snoc.mp hn
    have hold := h.placed hn
    rw [Assembler.newLabel, List.getElem?_append_left (List.getElem?_eq_some_iff.mp hold).1]
    exact hold
  · have hl' : ¬ Placed history id := fun hp => hl (placed_snoc.mpr (.inl hp))
    rw [Assembler.newLabel]
    rcases Nat.lt_or_ge id.toNat (created history) with hlt | hge
    · rw [List.getElem?_append_left (h.labels ▸ hlt)]
      exact h.unplaced hlt hl'
    · have heq : id.toNat = a.labels.length := by
        rw [h.labels]
        omega
      rw [heq, List.getElem?_concat_length]

/-- A request that only emits keeps what is known about labels. -/
theorem emitting {r : Request} {a' : Assembler} (hr : r.emits = true)
    (hcode : a'.code.length = a.code.length + 1) (hlabels : a'.labels = a.labels)
    (hjumps : ∀ jump ∈ a'.jumps, jump.1 < a'.code.length) : Notes a' (history ++ [r]) := by
  have hne : ∀ id, r ≠ .place ⟨id⟩ := by
    rintro id rfl
    cases hr
  have hcreated : created (history ++ [r]) = created history := by
    rw [created_snoc, if_neg]
    · rfl
    · rintro rfl
      cases hr
  refine ⟨?_, ?_, fun hn => ?_, fun hmade hl => ?_, hjumps⟩
  · rw [hcode, h.code, emitted_snoc, if_pos hr]
  · rw [hlabels, h.labels, hcreated]
  · rw [hlabels]
    exact h.placed ((placedAt_snoc.mp hn).resolve_right fun hp => hne _ hp.1)
  · rw [hlabels]
    exact h.unplaced (hcreated ▸ hmade) fun hp => hl (placed_snoc.mpr (.inl hp))

theorem accepted {l : Label} (hmade : l.id.toNat < created history) (hl : ¬ Placed history l.id) :
    Notes { a with labels := a.labels.set l.id.toNat (some (UInt32.ofNat (emitted history))) }
      (history ++ [Request.place l]) := by
  have hcreated : created (history ++ [Request.place l]) = created history := created_snoc
  have hemitted : emitted (history ++ [Request.place l]) = emitted history := emitted_snoc
  have hother : ∀ {id : UInt32}, id ≠ l.id →
      (a.labels.set l.id.toNat (some (UInt32.ofNat (emitted history))))[id.toNat]? =
        a.labels[id.toNat]? :=
    fun hne => List.getElem?_set_ne fun heq => hne (UInt32.toNat_inj.mp heq).symm
  refine ⟨h.code.trans hemitted.symm, ?_, fun {id n} hn => ?_, fun {id} hmade' hl' => ?_, h.jumps⟩
  · rw [List.length_set, h.labels, hcreated]
  · rcases placedAt_snoc.mp hn with hn | ⟨hr, -, -, rfl⟩
    · have hne : id ≠ l.id := by
        rintro rfl
        exact hl (placed_iff.mpr ⟨n, hn⟩)
      exact (hother hne).trans (h.placed hn)
    · obtain rfl : l = ⟨id⟩ := by simpa using hr
      exact List.getElem?_set_self (h.labels ▸ hmade)
  · have hne : id ≠ l.id := by
      rintro rfl
      exact hl' (placed_snoc.mpr (.inr ⟨rfl, hmade⟩))
    rw [hcreated] at hmade'
    exact (hother hne).trans (h.unplaced hmade' fun hp => hl' (placed_snoc.mpr (.inl hp)))

/-- A placement that is refused changes nothing, and so it does not count as a first one. -/
theorem refused {l : Label} (hl : created history ≤ l.id.toNat ∨ Placed history l.id) :
    Notes a (history ++ [Request.place l]) := by
  have hcreated : created (history ++ [Request.place l]) = created history := created_snoc
  have hemitted : emitted (history ++ [Request.place l]) = emitted history := emitted_snoc
  refine ⟨h.code.trans hemitted.symm, h.labels.trans hcreated.symm, fun hn => ?_,
    fun hmade hl' => ?_, h.jumps⟩
  · refine h.placed ((placedAt_snoc.mp hn).resolve_right ?_)
    rintro ⟨hr, hmade, hfirst, -⟩
    obtain rfl : l = ⟨_⟩ := by simpa using hr
    exact hfirst (hl.resolve_left (Nat.not_le.mpr hmade))
  · exact h.unplaced (hcreated ▸ hmade) fun hp => hl' (placed_snoc.mpr (.inl hp))

theorem place (l : Label) : Notes (a.after (.place l)) (history ++ [Request.place l]) := by
  rcases place_cases history l with ⟨hmade, hl⟩ | hl
  · rw [after, h.place_ok hmade hl]
    exact h.accepted hmade hl
  · rw [after, h.place_error hl]
    exact h.refused hl

theorem snoc (r : Request) : Notes (a.after r) (history ++ [r]) := by
  have hroom : ∀ {jump : Nat × Label}, jump ∈ a.jumps → jump.1 < a.code.length + 1 :=
    fun hj => Nat.lt_succ_of_lt (h.jumps _ hj)
  have hnew : ∀ i l, ∀ jump ∈ (a.emitTo i l).jumps, jump.1 < (a.emitTo i l).code.length := by
    intro i l jump hj
    rw [Lowering.length_emitTo]
    rcases List.mem_append.mp hj with hj | hj
    · exact hroom hj
    · rw [List.mem_singleton.mp hj]
      exact Nat.lt_succ_self _
  cases r with
  | newLabel => exact h.newLabel
  | place l => exact h.place l
  | emit i =>
    refine h.emitting rfl (Lowering.length_emit a i) rfl fun jump hj => ?_
    rw [Assembler.after, Lowering.length_emit]
    exact hroom hj
  | jump condition l =>
    cases condition with
    | none => exact h.emitting rfl (Lowering.length_emitTo a _ l) rfl (hnew _ l)
    | some c => exact h.emitting rfl (Lowering.length_emitTo a _ l) rfl (hnew _ l)
  | jumpCompare condition l => exact h.emitting rfl (Lowering.length_emitTo a _ l) rfl (hnew _ l)

end Notes

theorem served_snoc (history : List Request) (r : Request) :
    served (history ++ [r]) = (served history).after r :=
  List.foldl_concat ..

theorem served_notes (history : List Request) : Notes (served history) history := by
  induction history using List.reverseRecOn with
  | nil =>
    exact ⟨rfl, rfl, fun hn => (not_placed_nil (placed_iff.mpr ⟨_, hn⟩)).elim, fun hmade _ =>
      absurd hmade (Nat.not_lt_zero _), nofun⟩
  | append_singleton history r ih =>
    rw [served_snoc]
    exact ih.snoc r

theorem position_of_placedAt {history : List Request} {l : Label} {n : Nat}
    (h : PlacedAt history l.id n) : (served history).position? l = some (UInt32.ofNat n) := by
  rw [position?, (served_notes history).placed h]
  rfl

theorem position_of_not_placed {history : List Request} {l : Label}
    (h : ¬ Placed history l.id) : (served history).position? l = none := by
  rw [position?]
  rcases Nat.lt_or_ge l.id.toNat (created history) with hlt | hge
  · rw [(served_notes history).unplaced hlt h]
    rfl
  · rw [List.getElem?_eq_none ((served_notes history).labels ▸ hge)]
    rfl

/-! ## Finishing -/

/-- Asking for a place can only change the labels. -/
theorem exists_after_place (a : Assembler) (l : Label) :
    ∃ labels, a.after (.place l) = { a with labels := labels } := by
  rw [after, place]
  cases a.labels[l.id.toNat]? with
  | none => exact ⟨a.labels, rfl⟩
  | some position =>
    cases position with
    | none => exact ⟨_, rfl⟩
    | some t => exact ⟨a.labels, rfl⟩

theorem after_extends (a : Assembler) (r : Request) :
    a.code <+: (a.after r).code ∧ a.jumps <+: (a.after r).jumps := by
  cases r with
  | newLabel => exact ⟨List.prefix_rfl, List.prefix_rfl⟩
  | place l =>
    obtain ⟨labels, ha⟩ := exists_after_place a l
    rw [ha]
    exact ⟨List.prefix_rfl, List.prefix_rfl⟩
  | emit i => exact ⟨List.prefix_append _ _, List.prefix_rfl⟩
  | jump condition l =>
    cases condition <;> exact ⟨List.prefix_append _ _, List.prefix_append _ _⟩
  | jumpCompare condition l => exact ⟨List.prefix_append _ _, List.prefix_append _ _⟩

/-- What was emitted stays. -/
theorem served_extends (history more : List Request) :
    (served history).code <+: (served (history ++ more)).code ∧
      (served history).jumps <+: (served (history ++ more)).jumps := by
  induction more using List.reverseRecOn with
  | nil => rw [List.append_nil]; exact ⟨List.prefix_rfl, List.prefix_rfl⟩
  | append_singleton more r ih =>
    rw [← List.append_assoc, served_snoc]
    have hstep := after_extends (served (history ++ more)) r
    exact ⟨ih.1.trans hstep.1, ih.2.trans hstep.2⟩

/-- The jumps of a part of the history have labels with places. -/
def AllPlaced (history part : List Request) : Prop :=
  ∀ r ∈ part, ∀ l ∈ r.label?, Placed history l.id

section
variable {history part : List Request}

theorem exists_realizes_jump {l : Label} (hsize : emitted history < 2 ^ 32)
    (hl : Placed history l.id) :
    ∃ t : UInt32, (served history).position? l = some t ∧ PlacedAt history l.id t.toNat := by
  obtain ⟨n, hn⟩ := placed_iff.mp hl
  have hlt : n < UInt32.size := Nat.lt_of_le_of_lt hn.le hsize
  refine ⟨UInt32.ofNat n, position_of_placedAt hn, ?_⟩
  rwa [UInt32.toNat_ofNat_of_lt' hlt]

/-- One request of a part whose jumps have places. -/
theorem exists_emits_after {r : Request} (hsize : emitted history < 2 ^ 32) (a : Assembler)
    (hr : ∀ l ∈ r.label?, Placed history l.id) :
    ∃ code, List.Forall₂ (Realizes history) ([r].filter Request.emits) code ∧
      Emits (served history) a (a.after r) code := by
  cases r with
  | newLabel => exact ⟨[], .nil, .of_labels _⟩
  | place l =>
    obtain ⟨labels, ha⟩ := exists_after_place a l
    rw [ha]
    exact ⟨[], .nil, .of_labels labels⟩
  | emit i => exact ⟨[i], .cons (.emit i) .nil, .emit i⟩
  | jump condition l =>
    obtain ⟨t, ht, hplaced⟩ := exists_realizes_jump hsize (hr l rfl)
    cases condition with
    | none => exact ⟨[.goto t], .cons (.goto hplaced) .nil, .emitTo ht⟩
    | some c => exact ⟨[.ifZero c t], .cons (.ifZero c hplaced) .nil, .emitTo ht⟩
  | jumpCompare c l =>
    obtain ⟨t, ht, hplaced⟩ := exists_realizes_jump hsize (hr l rfl)
    exact ⟨[.ifCompare c t], .cons (.ifCompare c hplaced) .nil, .emitTo ht⟩

theorem exists_emits (hsize : emitted history < 2 ^ 32) (hplaced : AllPlaced history part) :
    ∃ code, List.Forall₂ (Realizes history) (part.filter Request.emits) code ∧
      Emits (served history) {} (served part) code := by
  induction part using List.reverseRecOn with
  | nil => exact ⟨[], .nil, .of_labels _⟩
  | append_singleton part r ih =>
    obtain ⟨code, hcode, hemits⟩ := ih fun r' hr' => hplaced r' (List.mem_append_left _ hr')
    obtain ⟨more, hmore, hemits'⟩ := exists_emits_after hsize (served part)
      (hplaced r (List.mem_append_right _ (.head _)))
    rw [List.filter_append, served_snoc]
    exact ⟨code ++ more, List.rel_append hcode hmore, hemits.trans hemits'⟩

/-- The jumps of a part with places are filled in, whatever comes behind it. -/
theorem resolve_part (hsize : emitted history < 2 ^ 32) (hplaced : AllPlaced history part)
    (more : List Instruction) :
    ∃ code, List.Forall₂ (Realizes history) (part.filter Request.emits) code ∧
      (served part).jumps.foldlM (served history).resolve ((served part).code ++ more) =
        .ok (code ++ more) := by
  obtain ⟨code, hcode, raw, jumps, hraw, -, hjumps, hfill⟩ := exists_emits hsize hplaced
  have hfill := hfill [] more rfl
  rw [List.nil_append] at hraw hjumps hfill
  rw [hraw, hjumps]
  exact ⟨code, hcode, hfill⟩

theorem finish_of_allPlaced (hsize : emitted history < 2 ^ 32)
    (hplaced : AllPlaced history history) :
    ∃ code, (served history).finish = .ok code ∧
      List.Forall₂ (Realizes history) (history.filter Request.emits) code := by
  obtain ⟨code, hcode, hresolve⟩ := resolve_part hsize hplaced []
  rw [List.append_nil, List.append_nil] at hresolve
  exact ⟨code, hresolve, hcode⟩

theorem jumps_after {r : Request} {l : Label} (a : Assembler) (h : l ∈ r.label?) :
    (a.after r).jumps = a.jumps ++ [(a.code.length, l)] := by
  cases r with
  | jump condition l' =>
    cases h
    cases condition <;> rfl
  | jumpCompare condition l' =>
    cases h
    rfl
  | _ => cases h

theorem finish_of_unplaced (hsize : emitted history < 2 ^ 32) {r : Request} {l : Label}
    {more : List Request} (hhistory : history = part ++ r :: more) (hpart : AllPlaced history part)
    (hr : l ∈ r.label?) (hl : ¬ Placed history l.id) :
    (served history).finish = .error (.unplacedLabel l.id) := by
  have hsplit : history = part ++ [r] ++ more := by rw [hhistory, List.append_assoc]; rfl
  obtain ⟨⟨code, hcode⟩, jumps, hjumps⟩ := hsplit ▸ served_extends (part ++ [r]) more
  obtain ⟨⟨code', hcode'⟩, -⟩ := served_extends part [r]
  obtain ⟨filled, -, hfill⟩ := resolve_part hsize hpart (code' ++ code)
  rw [served_snoc, jumps_after _ hr] at hjumps
  rw [finish, ← hjumps, ← hcode, ← hcode', List.append_assoc, List.append_assoc,
    List.foldlM_append, hfill]
  simp only [List.singleton_append, List.foldlM_cons, resolve, position_of_not_placed hl]
  rfl

/-- All jumps have labels with places, or there is a first one that has not. -/
theorem allPlaced_or_exists_first (history part : List Request) :
    AllPlaced history part ∨ ∃ before r after l, part = before ++ r :: after ∧ l ∈ r.label? ∧
      ¬ Placed history l.id ∧ AllPlaced history before := by
  induction part using List.reverseRecOn with
  | nil => exact .inl nofun
  | append_singleton part r ih =>
    rcases ih with hall | ⟨before, r', after, l, rfl, hrest⟩
    · by_cases hr : ∀ l ∈ r.label?, Placed history l.id
      · exact .inl (List.forall_mem_append.mpr ⟨hall, List.forall_mem_singleton.mpr hr⟩)
      · push Not at hr
        obtain ⟨l, hl, hunplaced⟩ := hr
        exact .inr ⟨part, r, [], l, rfl, hl, hunplaced, hall⟩
    · exact .inr ⟨before, r', after ++ [r], l, by simp, hrest⟩

theorem finish_error_iff (hsize : emitted history < 2 ^ 32) :
    (∃ e, (served history).finish = .error e) ↔
      ∃ r ∈ history, ∃ l ∈ r.label?, ¬ Placed history l.id := by
  constructor
  · rintro ⟨e, he⟩
    by_contra hall
    push Not at hall
    obtain ⟨code, hfinish, -⟩ := finish_of_allPlaced hsize hall
    cases hfinish.symm.trans he
  · rintro ⟨r, hr, l, hl, hunplaced⟩
    rcases allPlaced_or_exists_first history history with hall | hfirst
    · exact (hunplaced (hall r hr l hl)).elim
    · obtain ⟨before, r', after, l', hhistory, hl', hunplaced', hbefore⟩ := hfirst
      exact ⟨_, finish_of_unplaced hsize hhistory hbefore hl' hunplaced'⟩

/-- Finishing fails for the first jump whose label has no place. -/
theorem first_unplaced (hsize : emitted history < 2 ^ 32) {e : Error}
    (he : (served history).finish = .error e) :
    ∃ before r after l, history = before ++ r :: after ∧ l ∈ r.label? ∧ ¬ Placed history l.id ∧
      AllPlaced history before ∧ e = .unplacedLabel l.id := by
  rcases allPlaced_or_exists_first history history with hall | hfirst
  · obtain ⟨code, hfinish, -⟩ := finish_of_allPlaced hsize hall
    cases hfinish.symm.trans he
  · obtain ⟨before, r, after, l, hhistory, hl, hunplaced, hbefore⟩ := hfirst
    cases (finish_of_unplaced hsize hhistory hbefore hl hunplaced).symm.trans he
    exact ⟨before, r, after, l, hhistory, hl, hunplaced, hbefore, rfl⟩

theorem realizes_of_finish (hsize : emitted history < 2 ^ 32) {code : List Instruction}
    (hfinish : (served history).finish = .ok code) :
    List.Forall₂ (Realizes history) (history.filter Request.emits) code := by
  have hall : AllPlaced history history := by
    intro r hr l hl
    by_contra hunplaced
    obtain ⟨e, he⟩ := (finish_error_iff hsize).mpr ⟨r, hr, l, hl, hunplaced⟩
    cases hfinish.symm.trans he
  obtain ⟨code', hfinish', hrealizes⟩ := finish_of_allPlaced hsize hall
  cases hfinish'.symm.trans hfinish
  exact hrealizes

end

/-- Labels are resolved whatever the history. A label is refused a place just when it was not made
or has one; finishing stays inside of the code; it fails just when the label of some jump has no
place, and then for the first such jump; and else it gives the instructions in order, as they were
emitted, with each jump going to where its label was placed. -/
theorem served_resolves {history : List Request} (hcode : emitted history < 2 ^ 32)
    (hlabels : created history < 2 ^ 32) :
    (served history).newLabel.1.id.toNat = created history ∧
    (∀ l, ((∃ e, (served history).place l = .error e) ↔
        created history ≤ l.id.toNat ∨ Placed history l.id) ∧
      ∀ e, (served history).place l = .error e →
        e = .labelPlacedTwice l.id ∧ served (history ++ [Request.place l]) = served history) ∧
    (∀ jump ∈ (served history).jumps, jump.1 < (served history).code.length) ∧
    ((∃ e, (served history).finish = .error e) ↔
      ∃ r ∈ history, ∃ l ∈ r.label?, ¬ Placed history l.id) ∧
    (∀ e, (served history).finish = .error e →
      ∃ before r after l, history = before ++ r :: after ∧ l ∈ r.label? ∧ ¬ Placed history l.id ∧
        (∀ r' ∈ before, ∀ l' ∈ r'.label?, Placed history l'.id) ∧ e = .unplacedLabel l.id) ∧
    (∀ code, (served history).finish = .ok code →
      List.Forall₂ (Realizes history) (history.filter Request.emits) code ∧
      ∀ id n, PlacedAt history id n →
        n ≤ code.length ∧ ∀ n', PlacedAt history id n' → n' = n) := by
  have hnotes := served_notes history
  refine ⟨?_, fun l => ⟨hnotes.place_error_iff l, fun e he => ?_⟩, hnotes.jumps,
    finish_error_iff hcode, fun e he => first_unplaced hcode he, fun code hfinish => ?_⟩
  · rw [newLabel, hnotes.labels]
    exact UInt32.toNat_ofNat_of_lt' hlabels
  · cases (hnotes.place_error ((hnotes.place_error_iff l).mp ⟨e, he⟩)).symm.trans he
    refine ⟨rfl, ?_⟩
    rw [served_snoc, after, he]
  · have hrealizes := realizes_of_finish hcode hfinish
    refine ⟨hrealizes, fun id n hn => ⟨?_, fun n' hn' => hn'.unique hn⟩⟩
    rw [← hrealizes.length_eq, ← List.countP_eq_length_filter]
    exact hn.le

/-- A loop around a jump with a label that is also placed in vain. -/
def looping : List Request :=
  [.newLabel, .newLabel, .place ⟨0⟩, .emit (.iload 0), .jump (some .eq) ⟨1⟩, .place ⟨7⟩,
    .emit (.goto 9), .jumpCompare .lt ⟨1⟩, .place ⟨0⟩, .jump none ⟨0⟩, .place ⟨1⟩]

theorem served_resolves_looping :
    emitted looping < 2 ^ 32 ∧ created looping < 2 ^ 32 ∧
      (served looping).finish = .ok [.iload 0, .ifZero .eq 5, .goto 9, .ifCompare .lt 5, .goto 0] ∧
      (∃ e, (served looping).place ⟨1⟩ = .error e) ∧
      List.Forall₂ (Realizes looping) (looping.filter Request.emits)
        [.iload 0, .ifZero .eq 5, .goto 9, .ifCompare .lt 5, .goto 0] := by
  have hfinish : (served looping).finish =
      .ok [.iload 0, .ifZero .eq 5, .goto 9, .ifCompare .lt 5, .goto 0] := by decide
  obtain ⟨-, hplace, -, -, -, hok⟩ := @served_resolves looping (by decide) (by decide)
  have hplaced : Placed looping 1 := ⟨looping.take 10, [], rfl, by decide⟩
  exact ⟨by decide, by decide, hfinish, (hplace ⟨1⟩).1.mpr (.inr hplaced), (hok _ hfinish).1⟩

end PZero.Bytecode.Assembler
