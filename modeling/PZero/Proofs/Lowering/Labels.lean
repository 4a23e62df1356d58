import PZero.Bytecode.Assembler
import PZero.Proofs.Lowering.Code

/-! # Layout by labels

The lowering counts the instructions in front of a jump target. An assembler is told
less: it makes a label, jumps to it and places it where the code has come to. Both
give the same code, and the assembler has no reason to fail, because each label is
placed once. The instructions between the jumps are not jumps themselves.
-/
namespace PZero.Lowering
open Bytecode

/-- Code that leaves the jump targets to labels. -/
inductive Labelled
  | plain (code : Code)
  | append (first second : Labelled)
  | conditional (guard yes no : Labelled)
  | loop (guard body : Labelled)
  | verdict (jump : Instruction)

namespace Labelled

/-- All jumps have labels. -/
def Proper : Labelled → Prop
  | plain code => ∀ i ∈ code, i.target? = none
  | append first second => first.Proper ∧ second.Proper
  | conditional guard yes no => guard.Proper ∧ yes.Proper ∧ no.Proper
  | loop guard body => guard.Proper ∧ body.Proper
  | verdict jump => jump.target?.isSome

/-- The code with the targets counted out, from a place on. -/
def layOut (base : Nat) : Labelled → Code
  | plain code => code
  | append first second =>
    first.layOut base ++ second.layOut (base + (first.layOut base).length)
  | conditional guard yes no =>
    let g := guard.layOut base
    let y := yes.layOut (yesStart base g)
    Lowering.conditional base g y (no.layOut (noStart base g y))
  | loop guard body =>
    let g := guard.layOut base
    Lowering.loop base g (body.layOut (yesStart base g))
  | verdict jump => Lowering.verdict base fun t => jump.withTarget t

/-- The code emitted with labels. -/
def assemble (a : Assembler) : Labelled → Except Bytecode.Error Assembler
  | plain code => .ok (code.foldl Assembler.emit a)
  | append first second => do second.assemble (← first.assemble a)
  | conditional guard yes no => do
    let (otherwise, a) := a.newLabel
    let (done, a) := a.newLabel
    let a ← guard.assemble a
    let a ← yes.assemble (a.jump (some .eq) otherwise)
    let a ← (a.jump none done).place otherwise
    let a ← no.assemble a
    a.place done
  | loop guard body => do
    let (top, a) := a.newLabel
    let (done, a) := a.newLabel
    let a ← a.place top
    let a ← guard.assemble a
    let a ← body.assemble (a.jump (some .eq) done)
    (a.jump none top).place done
  | verdict jump => do
    let (holds, a) := a.newLabel
    let (done, a) := a.newLabel
    let a ← (((a.emitTo jump holds).emit (.iconst 0)).jump none done).place holds
    (a.emit (.iconst 1)).place done

def labelCount : Labelled → Nat
  | plain _ => 0
  | append first second => first.labelCount + second.labelCount
  | conditional guard yes no => guard.labelCount + yes.labelCount + no.labelCount + 2
  | loop guard body => guard.labelCount + body.labelCount + 2
  | verdict _ => 2

end Labelled

/-! ## What an assembler has emitted -/

/-- Between two assemblers code was emitted that becomes the given one when its jumps are filled in
from the labels of a third. -/
def Emits (final a a' : Assembler) (code : Code) : Prop :=
  ∃ raw jumps, a'.code = a.code ++ raw ∧ raw.length = code.length ∧ a'.jumps = a.jumps ++ jumps ∧
    ∀ before after, before.length = a.code.length →
      jumps.foldlM final.resolve (before ++ raw ++ after) = .ok (before ++ code ++ after)

namespace Emits
variable {final a a' a'' : Assembler} {code code' : Code} {i : Instruction} {t : UInt32}

theorem trans (h : Emits final a a' code) (h' : Emits final a' a'' code') :
    Emits final a a'' (code ++ code') := by
  obtain ⟨raw, jumps, hcode, hlength, hjumps, hfill⟩ := h
  obtain ⟨raw', jumps', hcode', hlength', hjumps', hfill'⟩ := h'
  refine ⟨raw ++ raw', jumps ++ jumps', by rw [hcode', hcode, List.append_assoc],
    by rw [List.length_append, List.length_append, hlength, hlength'],
    by rw [hjumps', hjumps, List.append_assoc], fun before after hbefore => ?_⟩
  have hfirst := hfill before (raw' ++ after) hbefore
  have hplace : (before ++ code).length = a'.code.length := by
    rw [hcode, List.length_append, List.length_append, hbefore, hlength]
  have hsecond := hfill' (before ++ code) after hplace
  simp only [List.append_assoc] at hfirst hsecond ⊢
  rw [List.foldlM_append, hfirst]
  exact hsecond

theorem length_eq (h : Emits final a a' code) : a'.code.length = a.code.length + code.length := by
  obtain ⟨raw, jumps, hcode, hlength, -⟩ := h
  rw [hcode, List.length_append, hlength]

/-- Only the labels differ. -/
theorem of_labels (labels : List (Option UInt32)) :
    Emits final a { a with labels := labels } [] :=
  ⟨[], [], (List.append_nil _).symm, rfl, (List.append_nil _).symm, fun _ _ _ => rfl⟩

theorem emit (i : Instruction) : Emits final a (a.emit i) [i] :=
  ⟨[i], [], rfl, rfl, (List.append_nil _).symm, fun _ _ _ => rfl⟩

theorem emitTo {l : Label} (h : final.position? l = some t) :
    Emits final a (a.emitTo i l) [i.withTarget t] := by
  refine ⟨[i], [(a.code.length, l)], rfl, rfl, rfl, fun before after hbefore => ?_⟩
  have hmodify : (before ++ [i] ++ after).modify a.code.length (Instruction.withTarget t) =
      before ++ [i.withTarget t] ++ after := by
    rw [← hbefore]
    simp [List.modify_eq_set]
  simp only [List.foldlM_cons, List.foldlM_nil, Assembler.resolve, h, hmodify]
  rfl

end Emits

/-! ## Label tables -/

theorem getElem?_of_isPrefix {α : Type} {l l' : List α} (h : l <+: l') {k : Nat} {x : α}
    (hx : l[k]? = some x) : l'[k]? = some x := by
  obtain ⟨rest, rfl⟩ := h
  rw [List.getElem?_append_left (List.getElem?_eq_some_iff.mp hx).1, hx]

/-- The labels from an index on that have a place in the first table have it in the second. -/
def Settles (n : Nat) (labels labels' : List (Option UInt32)) : Prop :=
  ∀ k t, n ≤ k → labels[k]? = some (some t) → labels'[k]? = some (some t)

namespace Settles
variable {n n' k : Nat} {labels labels' labels'' : List (Option UInt32)}

theorem trans (h : Settles n labels labels') (h' : Settles n labels' labels'') :
    Settles n labels labels'' :=
  fun k t hk ht => h' k t hk (h k t hk ht)

theorem mono (h : Settles n labels labels') (hn : n ≤ n') : Settles n' labels labels' :=
  fun k t hk ht => h k t (Nat.le_trans hn hk) ht

theorem of_isPrefix (h : labels <+: labels') : Settles n labels labels' :=
  fun _ _ _ ht => getElem?_of_isPrefix h ht

end Settles

/-- The label with a number. -/
def label (k : Nat) : Label := ⟨UInt32.ofNat k⟩

theorem position_label {final : Assembler} {k : Nat} (hlt : k < 2 ^ 32) {t : UInt32}
    (h : final.labels[k]? = some (some t)) : final.position? (label k) = some t := by
  simp only [Assembler.position?, label, UInt32.toNat_ofNat_of_lt' hlt, h]
  rfl

/-- The second assembler is the first one with a label placed at the next instruction. -/
structure Places (a a' : Assembler) (k : Nat) : Prop where
  unplaced : a.labels[k]? = some none
  eq : a' = { a with labels := a.labels.set k (some (target a.code.length)) }

theorem exists_places {a : Assembler} {k : Nat} (h : a.labels[k]? = some none)
    (hlt : k < 2 ^ 32) : ∃ a', a.place (label k) = .ok a' ∧ Places a a' k := by
  refine ⟨_, ?_, h, rfl⟩
  simp only [Assembler.place, label, UInt32.toNat_ofNat_of_lt' hlt, h]
  rfl

namespace Places
variable {a a' : Assembler} {k : Nat} (h : Places a a' k)
include h

theorem code_eq : a'.code = a.code := by rw [h.eq]

theorem length_labels : a'.labels.length = a.labels.length := by rw [h.eq, List.length_set]

theorem emits (final : Assembler) : Emits final a a' [] := by
  rw [h.eq]
  exact .of_labels _

theorem getElem?_self : a'.labels[k]? = some (some (target a.code.length)) := by
  rw [h.eq, List.getElem?_set_self (List.getElem?_eq_some_iff.mp h.unplaced).1]

theorem getElem?_ne {j : Nat} (hne : k ≠ j) : a'.labels[j]? = a.labels[j]? := by
  rw [h.eq, List.getElem?_set_ne hne]

/-- Placing a label does not change those that have a place. -/
theorem settles (n : Nat) : Settles n a.labels a'.labels := by
  intro j t _ ht
  have hne : k ≠ j := by
    rintro rfl
    rw [h.unplaced] at ht
    cases ht
  rw [h.getElem?_ne hne, ht]

theorem isPrefix {labels : List (Option UInt32)} (hl : labels <+: a.labels)
    (hk : labels.length ≤ k) : labels <+: a'.labels := by
  obtain ⟨rest, hrest⟩ := hl
  rw [h.eq, ← hrest, List.set_append_right k _ hk]
  exact List.prefix_append _ _

end Places

/-! ## Assembling -/

/-- Between two assemblers code was emitted whose labels are all new, and it becomes the given one
as soon as they have their places. -/
structure Assembles (a a' : Assembler) (code : Code) : Prop where
  labels : a.labels <+: a'.labels
  emits : ∀ final : Assembler, Settles a.labels.length a'.labels final.labels →
    Emits final a a' code

namespace Assembles
variable {a a' a'' : Assembler} {code code' : Code}

theorem size (h : Assembles a a' code) : a'.code.length = a.code.length + code.length :=
  (h.emits a' fun _ _ _ ht => ht).length_eq

theorem trans (h : Assembles a a' code) (h' : Assembles a' a'' code') :
    Assembles a a'' (code ++ code') := by
  refine ⟨h.labels.trans h'.labels, fun final hfinal => ?_⟩
  have hfirst := h.emits final ((Settles.of_isPrefix h'.labels).trans hfinal)
  exact hfirst.trans (h'.emits final (hfinal.mono h.labels.length_le))

theorem plain (code : Code) : Assembles a (code.foldl Assembler.emit a) code := by
  induction code generalizing a with
  | nil => exact ⟨List.prefix_rfl, fun _ _ => .of_labels a.labels⟩
  | cons i code ih =>
    have hone : Assembles a (a.emit i) [i] := ⟨List.prefix_rfl, fun _ _ => .emit i⟩
    exact hone.trans ih

end Assembles

/-- Two new labels. -/
def twoLabels (a : Assembler) : Assembler := { a with labels := a.labels ++ [none, none] }

theorem getElem?_twoLabels {a : Assembler} {labels : List (Option UInt32)}
    (h : (twoLabels a).labels <+: labels) :
    labels[a.labels.length]? = some none ∧ labels[a.labels.length + 1]? = some none := by
  obtain ⟨rest, rfl⟩ := h
  simp [twoLabels]

theorem prefix_twoLabels (a : Assembler) : a.labels <+: (twoLabels a).labels :=
  List.prefix_append _ _

@[simp] theorem twoLabels_code (a : Assembler) : (twoLabels a).code = a.code := rfl

@[simp] theorem length_emit (a : Assembler) (i : Instruction) :
    (a.emit i).code.length = a.code.length + 1 :=
  List.length_append

@[simp] theorem length_emitTo (a : Assembler) (i : Instruction) (l : Label) :
    (a.emitTo i l).code.length = a.code.length + 1 :=
  List.length_append

@[simp] theorem length_jump (a : Assembler) (condition : Option Condition) (l : Label) :
    (a.jump condition l).code.length = a.code.length + 1 := by
  cases condition <;> exact List.length_append

theorem twoLabels_emits (final a : Assembler) : Emits final a (twoLabels a) [] := .of_labels _

section
variable {a a₁ a₂ a₃ a₄ a₅ : Assembler} {guard yes no body : Code}

theorem conditional_assembles (hroom : a.labels.length + 1 < 2 ^ 32)
    (hg : Assembles (twoLabels a) a₁ guard)
    (hy : Assembles (a₁.jump (some .eq) (label a.labels.length)) a₂ yes)
    (hp : Places (a₂.jump none (label (a.labels.length + 1))) a₃ a.labels.length)
    (hn : Assembles a₃ a₄ no) (hp' : Places a₄ a₅ (a.labels.length + 1)) :
    Assembles a a₅ (conditional a.code.length guard yes no) := by
  have hbefore : a.labels <+: a₁.labels := (prefix_twoLabels a).trans hg.labels
  have hafter : a.labels <+: a₃.labels := hp.isPrefix (hbefore.trans hy.labels) (Nat.le_refl _)
  refine ⟨hp'.isPrefix (hafter.trans hn.labels) (Nat.le_succ _), fun final hfinal => ?_⟩
  -- Each label has its place in the end, since it is placed once and nothing moves it.
  have hlast : Settles a.labels.length a₄.labels final.labels := (hp'.settles _).trans hfinal
  have hmiddle : Settles a.labels.length a₂.labels final.labels :=
    (hp.settles _).trans ((Settles.of_isPrefix hn.labels).trans hlast)
  have hfirst : Settles a.labels.length a₁.labels final.labels :=
    (Settles.of_isPrefix hy.labels).trans hmiddle
  have hotherwise := hlast _ _ (Nat.le_refl _) (getElem?_of_isPrefix hn.labels hp.getElem?_self)
  have hdone := hfinal _ _ (Nat.le_succ _) hp'.getElem?_self
  -- The places are those of the layout.
  have hyes : (a₂.jump none (label (a.labels.length + 1))).code.length =
      noStart a.code.length guard yes := by
    rw [length_jump, hy.size, length_jump, hg.size, twoLabels_code, noStart, yesStart]
  have hno : a₄.code.length = noStart a.code.length guard yes + no.length := by
    rw [hn.size, hp.code_eq, hyes]
  rw [hyes] at hotherwise
  rw [hno] at hdone
  have hemits := (twoLabels_emits final a).trans
    ((hg.emits final (hfirst.mono (prefix_twoLabels a).length_le)).trans
    ((Emits.emitTo (position_label (by omega) hotherwise)).trans
    ((hy.emits final (hmiddle.mono hbefore.length_le)).trans
    ((Emits.emitTo (position_label hroom hdone)).trans
    ((hp.emits final).trans ((hn.emits final (hlast.mono hafter.length_le)).trans
    (hp'.emits final)))))))
  simpa [conditional, Instruction.withTarget] using hemits

theorem loop_assembles (hroom : a.labels.length + 1 < 2 ^ 32)
    (hp : Places (twoLabels a) a₁ a.labels.length) (hg : Assembles a₁ a₂ guard)
    (hb : Assembles (a₂.jump (some .eq) (label (a.labels.length + 1))) a₃ body)
    (hp' : Places (a₃.jump none (label a.labels.length)) a₄ (a.labels.length + 1)) :
    Assembles a a₄ (loop a.code.length guard body) := by
  have htop : a.labels <+: a₁.labels := hp.isPrefix (prefix_twoLabels a) (Nat.le_refl _)
  have hbefore : a.labels <+: a₂.labels := htop.trans hg.labels
  refine ⟨hp'.isPrefix (hbefore.trans hb.labels) (Nat.le_succ _), fun final hfinal => ?_⟩
  have hlast : Settles a.labels.length a₃.labels final.labels := (hp'.settles _).trans hfinal
  have hmiddle : Settles a.labels.length a₂.labels final.labels :=
    (Settles.of_isPrefix hb.labels).trans hlast
  have hstart := hmiddle _ _ (Nat.le_refl _) (getElem?_of_isPrefix hg.labels hp.getElem?_self)
  have hdone := hfinal _ _ (Nat.le_succ _) hp'.getElem?_self
  have hend : (a₃.jump none (label a.labels.length)).code.length =
      yesStart a.code.length guard + body.length + 1 := by
    rw [length_jump, hb.size, length_jump, hg.size, hp.code_eq, twoLabels_code, yesStart]
  rw [hend] at hdone
  have hemits := (twoLabels_emits final a).trans ((hp.emits final).trans
    ((hg.emits final (hmiddle.mono htop.length_le)).trans
    ((Emits.emitTo (position_label hroom hdone)).trans
    ((hb.emits final (hlast.mono hbefore.length_le)).trans
    ((Emits.emitTo (position_label (by omega) hstart)).trans (hp'.emits final))))))
  simpa [loop, Instruction.withTarget] using hemits

theorem verdict_assembles {jump : Instruction} (hroom : a.labels.length + 1 < 2 ^ 32)
    (hp : Places ((((twoLabels a).emitTo jump (label a.labels.length)).emit (.iconst 0)).jump none
      (label (a.labels.length + 1))) a₁ a.labels.length)
    (hp' : Places (a₁.emit (.iconst 1)) a₂ (a.labels.length + 1)) :
    Assembles a a₂ (verdict a.code.length fun t => jump.withTarget t) := by
  have hbefore : a.labels <+: a₁.labels := hp.isPrefix (prefix_twoLabels a) (Nat.le_refl _)
  refine ⟨hp'.isPrefix hbefore (Nat.le_succ _), fun final hfinal => ?_⟩
  have hlast : Settles a.labels.length a₁.labels final.labels := (hp'.settles _).trans hfinal
  have hholds := hlast _ _ (Nat.le_refl _) hp.getElem?_self
  have hdone := hfinal _ _ (Nat.le_succ _) hp'.getElem?_self
  have hone : ((((twoLabels a).emitTo jump (label a.labels.length)).emit (.iconst 0)).jump none
      (label (a.labels.length + 1))).code.length = a.code.length + 3 := by
    simp
  have hend : (a₁.emit (.iconst 1)).code.length = a.code.length + 4 := by
    rw [length_emit, hp.code_eq, hone]
  rw [hone] at hholds
  rw [hend] at hdone
  have hemits := (twoLabels_emits final a).trans
    ((Emits.emitTo (position_label (by omega) hholds)).trans
    ((Emits.emit (.iconst 0)).trans
    ((Emits.emitTo (position_label hroom hdone)).trans ((hp.emits final).trans
    ((Emits.emit (.iconst 1)).trans (hp'.emits final))))))
  simpa [verdict, Instruction.withTarget] using hemits

end

namespace Labelled
variable {a : Assembler} {guard yes no body : Labelled}

theorem assemble_conditional : (conditional guard yes no).assemble a = (do
    let a₁ ← guard.assemble (twoLabels a)
    let a₂ ← yes.assemble (a₁.jump (some .eq) (label a.labels.length))
    let a₃ ← (a₂.jump none (label (a.labels.length + 1))).place (label a.labels.length)
    let a₄ ← no.assemble a₃
    a₄.place (label (a.labels.length + 1))) := by
  simp [assemble, Assembler.newLabel, twoLabels, label]

theorem assemble_loop : (loop guard body).assemble a = (do
    let a₁ ← (twoLabels a).place (label a.labels.length)
    let a₂ ← guard.assemble a₁
    let a₃ ← body.assemble (a₂.jump (some .eq) (label (a.labels.length + 1)))
    (a₃.jump none (label a.labels.length)).place (label (a.labels.length + 1))) := by
  simp [assemble, Assembler.newLabel, twoLabels, label]

theorem assemble_verdict {jump : Instruction} : (verdict jump).assemble a = (do
    let a₁ ← ((((twoLabels a).emitTo jump (label a.labels.length)).emit (.iconst 0)).jump none
      (label (a.labels.length + 1))).place (label a.labels.length)
    (a₁.emit (.iconst 1)).place (label (a.labels.length + 1))) := by
  simp [assemble, Assembler.newLabel, twoLabels, label]

/-- With room for its labels the code can be assembled, and what is emitted is its layout. -/
def Faithful (p : Labelled) : Prop :=
  ∀ a : Assembler, a.labels.length + p.labelCount ≤ 2 ^ 32 →
    ∃ a', p.assemble a = .ok a' ∧ Assembles a a' (p.layOut a.code.length) ∧
      a'.labels.length = a.labels.length + p.labelCount

theorem Faithful.append {first second : Labelled} (hf : first.Faithful) (hs : second.Faithful) :
    (append first second).Faithful := by
  intro a hroom
  rw [labelCount] at hroom ⊢
  obtain ⟨a₁, ha₁, hfirst, hlabels₁⟩ := hf a (by omega)
  obtain ⟨a₂, ha₂, hsecond, hlabels₂⟩ := hs a₁ (by omega)
  rw [hfirst.size] at hsecond
  refine ⟨a₂, ?_, hfirst.trans hsecond, by omega⟩
  rw [assemble, ha₁]
  exact ha₂

theorem Faithful.conditional (hg' : guard.Faithful) (hy' : yes.Faithful) (hn' : no.Faithful) :
    (conditional guard yes no).Faithful := by
  intro a hroom
  rw [labelCount] at hroom ⊢
  have htwo : (twoLabels a).labels.length = a.labels.length + 2 := List.length_append
  obtain ⟨a₁, ha₁, hg, hlabels₁⟩ := hg' (twoLabels a) (by omega)
  have hsame : (a₁.jump (some .eq) (label a.labels.length)).labels = a₁.labels := rfl
  obtain ⟨a₂, ha₂, hy, hlabels₂⟩ := hy' (a₁.jump (some .eq) (label a.labels.length))
    (by rw [hsame]; omega)
  rw [hsame] at hlabels₂
  obtain ⟨hunplaced, hunplaced'⟩ := getElem?_twoLabels (hg.labels.trans hy.labels)
  obtain ⟨a₃, ha₃, hp⟩ := @exists_places (a₂.jump none (label (a.labels.length + 1))) _ hunplaced
    (by omega)
  have hlabels₃ : a₃.labels.length = a₂.labels.length := hp.length_labels
  obtain ⟨a₄, ha₄, hn, hlabels₄⟩ := hn' a₃ (by omega)
  have hdone : a₃.labels[a.labels.length + 1]? = some none := by
    rw [hp.getElem?_ne (by omega)]
    exact hunplaced'
  obtain ⟨a₅, ha₅, hp'⟩ := exists_places (getElem?_of_isPrefix hn.labels hdone) (by omega)
  have hyes : (a₁.jump (some .eq) (label a.labels.length)).code.length =
      yesStart a.code.length (guard.layOut a.code.length) := by
    rw [length_jump, hg.size]
    rfl
  rw [hyes] at hy
  have hno : a₃.code.length = noStart a.code.length (guard.layOut a.code.length)
      (yes.layOut (yesStart a.code.length (guard.layOut a.code.length))) := by
    rw [hp.code_eq, length_jump, hy.size, hyes, noStart]
  rw [hno] at hn
  refine ⟨a₅, ?_, conditional_assembles (by omega) hg hy hp hn hp', ?_⟩
  · simp only [assemble_conditional, bind_eq_ok]
    exact ⟨a₁, ha₁, a₂, ha₂, a₃, ha₃, a₄, ha₄, ha₅⟩
  · rw [hp'.length_labels]
    omega

theorem Faithful.loop (hg' : guard.Faithful) (hb' : body.Faithful) :
    (loop guard body).Faithful := by
  intro a hroom
  rw [labelCount] at hroom ⊢
  have htwo : (twoLabels a).labels.length = a.labels.length + 2 := List.length_append
  obtain ⟨hunplaced, hunplaced'⟩ := getElem?_twoLabels (a := a) List.prefix_rfl
  obtain ⟨a₁, ha₁, hp⟩ := exists_places hunplaced (by omega)
  have hlabels₁ := hp.length_labels
  obtain ⟨a₂, ha₂, hg, hlabels₂⟩ := hg' a₁ (by omega)
  have hsame : (a₂.jump (some .eq) (label (a.labels.length + 1))).labels = a₂.labels := rfl
  obtain ⟨a₃, ha₃, hb, hlabels₃⟩ := hb' (a₂.jump (some .eq) (label (a.labels.length + 1)))
    (by rw [hsame]; omega)
  rw [hsame] at hlabels₃
  have hdone : a₁.labels[a.labels.length + 1]? = some none := by
    rw [hp.getElem?_ne (by omega)]
    exact hunplaced'
  obtain ⟨a₄, ha₄, hp'⟩ := @exists_places (a₃.jump none (label a.labels.length)) _
    (getElem?_of_isPrefix (hg.labels.trans hb.labels) hdone) (by omega)
  rw [hp.code_eq, twoLabels_code] at hg
  have hyes : (a₂.jump (some .eq) (label (a.labels.length + 1))).code.length =
      yesStart a.code.length (guard.layOut a.code.length) := by
    rw [length_jump, hg.size, hp.code_eq]
    rfl
  rw [hyes] at hb
  refine ⟨a₄, ?_, loop_assembles (by omega) hp hg hb hp', ?_⟩
  · simp only [assemble_loop, bind_eq_ok]
    exact ⟨a₁, ha₁, a₂, ha₂, a₃, ha₃, ha₄⟩
  · have hlabels₄ : a₄.labels.length = a₃.labels.length := hp'.length_labels
    omega

theorem Faithful.verdict (jump : Instruction) : (verdict jump).Faithful := by
  intro a hroom
  rw [labelCount] at hroom ⊢
  obtain ⟨hunplaced, hunplaced'⟩ := getElem?_twoLabels (a := a) List.prefix_rfl
  obtain ⟨a₁, ha₁, hp⟩ := @exists_places ((((twoLabels a).emitTo jump
    (label a.labels.length)).emit (.iconst 0)).jump none (label (a.labels.length + 1))) _ hunplaced
    (by omega)
  have hdone : a₁.labels[a.labels.length + 1]? = some none := by
    rw [hp.getElem?_ne (by omega)]
    exact hunplaced'
  obtain ⟨a₂, ha₂, hp'⟩ := @exists_places (a₁.emit (.iconst 1)) _ hdone (by omega)
  refine ⟨a₂, ?_, verdict_assembles (by omega) hp hp', ?_⟩
  · simp only [assemble_verdict, bind_eq_ok]
    exact ⟨a₁, ha₁, ha₂⟩
  · have hlabels₁ : a₁.labels.length = (twoLabels a).labels.length := hp.length_labels
    have hlabels₂ : a₂.labels.length = a₁.labels.length := hp'.length_labels
    rw [hlabels₂, hlabels₁]
    exact List.length_append

end Labelled

end PZero.Lowering
