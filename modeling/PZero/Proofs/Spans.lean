import Mathlib.Data.Prod.Lex
import Mathlib.Data.Set.Basic
import Mathlib.Logic.Relation
import Mathlib.Order.Nat
import PZero.Surface.Tree

/-! # Spans that are joined

The spans of one text form a semilattice: the sum of two is the smallest span that covers
both, and every span covers the unknown one. So it does not matter in which order the parts of
an expression are joined, and the span of an expression covers those of its parts.
-/
namespace PZero

namespace Location

/-- Line and column, in reading order. -/
def place (l : Location) : ℕ ×ₗ ℕ := toLex (l.line.toNat, l.column.toNat)

variable {a b : Location}

theorem precedes_iff : a.precedes b = true ↔ a.place ≤ b.place := by
  simp only [precedes, place, Prod.Lex.toLex_le_toLex, Bool.or_eq_true, Bool.and_eq_true,
    decide_eq_true_eq, beq_iff_eq, UInt32.lt_iff_toNat_lt, UInt32.le_iff_toNat_le,
    ← UInt32.toNat_inj]

theorem place_lesser (a b : Location) :
    (if a.precedes b then a else b).place = min a.place b.place := by
  simp only [precedes_iff, min_def, apply_ite place]

theorem place_greater (a b : Location) :
    (if b.precedes a then a else b).place = max a.place b.place := by
  rw [max_comm]
  simp only [precedes_iff, max_def, apply_ite place]

/-- Locations of one text: line and column determine the offset. The location that is all zero
belongs to every text. -/
structure OneText (L : Set Location) : Prop where
  zero_mem : {} ∈ L
  offset_eq : ∀ a ∈ L, ∀ b ∈ L, a.line = b.line → a.column = b.column → a.offset = b.offset

theorem OneText.eq_of_place {L : Set Location} (hL : OneText L) (ha : a ∈ L) (hb : b ∈ L)
    (h : a.place = b.place) : a = b := by
  have hline : a.line = b.line := UInt32.toNat_inj.mp (congrArg (fun p => (ofLex p).1) h)
  have hcolumn : a.column = b.column := UInt32.toNat_inj.mp (congrArg (fun p => (ofLex p).2) h)
  calc a = ⟨a.offset, a.line, a.column⟩ := rfl
    _ = ⟨b.offset, b.line, b.column⟩ := by
      rw [hL.offset_eq a ha b hb hline hcolumn, hline, hcolumn]

end Location

namespace Span
open Location

variable {a b c s : Span} {L : Set Location}

/-! ## Sums -/

theorem isUnknown_iff : s.isUnknown = true ↔ s = {} := beq_iff_eq

/-- A sum has an unknown part, or two ends to compare. -/
theorem unknown_or_known (a b : Span) :
    a = {} ∨ b = {} ∨ a.isUnknown = false ∧ b.isUnknown = false := by
  rw [← isUnknown_iff, ← isUnknown_iff]
  cases a.isUnknown <;> cases b.isUnknown <;> simp

theorem unknown_add (s : Span) : {} + s = s := rfl

theorem add_of_known (ha : a.isUnknown = false) (hb : b.isUnknown = false) : a + b =
    ⟨if a.start.precedes b.start then a.start else b.start,
      if b.stop.precedes a.stop then a.stop else b.stop⟩ := by
  show join a b = _
  simp only [join, ha, hb, Bool.false_eq_true, if_false]

theorem add_unknown (s : Span) : s + {} = s := by
  show join s {} = s
  unfold join
  split
  · next h => exact (isUnknown_iff.mp h).symm
  · rfl

theorem add_self (s : Span) : s + s = s := by
  rcases unknown_or_known s s with rfl | rfl | ⟨hs, -⟩
  · rfl
  · rfl
  · rw [add_of_known hs hs, ite_self, ite_self]

/-- A known span that runs from the lesser start of two spans to the greater end. -/
structure Unites (s a b : Span) : Prop where
  known : s.isUnknown = false
  start_eq : s.start = a.start ∨ s.start = b.start
  start_place : s.start.place = min a.start.place b.start.place
  stop_eq : s.stop = a.stop ∨ s.stop = b.stop
  stop_place : s.stop.place = max a.stop.place b.stop.place

/-- What is known of the other span lies within this one, which is known then. -/
def Covers (s a : Span) : Prop :=
  a.isUnknown = false →
    s.isUnknown = false ∧ s.start.place ≤ a.start.place ∧ a.stop.place ≤ s.stop.place

theorem Covers.refl (s : Span) : s.Covers s := fun h => ⟨h, le_rfl, le_rfl⟩

theorem Covers.trans (h : s.Covers a) (h' : a.Covers b) : s.Covers b := by
  intro hb
  obtain ⟨ha, hstart, hstop⟩ := h' hb
  obtain ⟨hs, hstart', hstop'⟩ := h ha
  exact ⟨hs, hstart'.trans hstart, hstop.trans hstop'⟩

theorem covers_unknown (s : Span) : s.Covers {} := nofun

theorem eq_unknown_of_covers (h : Covers {} a) : a = {} := by
  cases hua : a.isUnknown with
  | true => exact isUnknown_iff.mp hua
  | false => exact nomatch (h hua).1

/-! ## Spans of one text -/

/-- Both ends of the span are locations of the text. -/
structure Within (s : Span) (L : Set Location) : Prop where
  start_mem : s.start ∈ L
  stop_mem : s.stop ∈ L

namespace Within

theorem unknown (hL : OneText L) : Within {} L := ⟨hL.zero_mem, hL.zero_mem⟩

theorem eq_of_places (hL : OneText L) (ha : a.Within L) (hb : b.Within L)
    (hstart : a.start.place = b.start.place) (hstop : a.stop.place = b.stop.place) : a = b :=
  calc a = ⟨a.start, a.stop⟩ := rfl
    _ = ⟨b.start, b.stop⟩ := by
      rw [hL.eq_of_place ha.start_mem hb.start_mem hstart,
        hL.eq_of_place ha.stop_mem hb.stop_mem hstop]

theorem add (ha : a.Within L) (hb : b.Within L) : (a + b).Within L := by
  rcases unknown_or_known a b with rfl | rfl | ⟨hua, hub⟩
  · exact hb
  · rwa [add_unknown]
  · rw [add_of_known hua hub]
    exact ⟨ite_mem.mpr ⟨fun _ => ha.start_mem, fun _ => hb.start_mem⟩,
      ite_mem.mpr ⟨fun _ => ha.stop_mem, fun _ => hb.stop_mem⟩⟩

theorem unites_add (hL : OneText L) (ha : a.Within L) (hb : b.Within L)
    (hua : a.isUnknown = false) (hub : b.isUnknown = false) : (a + b).Unites a b := by
  have hadd := add_of_known hua hub
  have hstart : (a + b).start = a.start ∨ (a + b).start = b.start := hadd ▸ ite_eq_or_eq ..
  have hstop : (a + b).stop = a.stop ∨ (a + b).stop = b.stop := hadd ▸ ite_eq_or_eq ..
  have hstop' : (a + b).stop.place = max a.stop.place b.stop.place := hadd ▸ place_greater ..
  refine ⟨?_, hstart, hadd ▸ place_lesser .., hstop, hstop'⟩
  -- An unknown sum would end at the least place, and so would both parts. The part that has its
  -- start would be unknown itself.
  by_contra hsum
  rw [Bool.not_eq_false, isUnknown_iff] at hsum
  obtain ⟨hastop, hbstop⟩ : a.stop.place = ⊥ ∧ b.stop.place = ⊥ := by
    rw [← max_eq_bot, ← hstop', hsum]
    rfl
  rw [hsum] at hstart
  rcases hstart with h | h
  · have ha' := ha.eq_of_places hL (unknown hL) (congrArg place h.symm) hastop
    exact absurd (isUnknown_iff.mpr ha') (hua ▸ Bool.false_ne_true)
  · have hb' := hb.eq_of_places hL (unknown hL) (congrArg place h.symm) hbstop
    exact absurd (isUnknown_iff.mpr hb') (hub ▸ Bool.false_ne_true)

/-- With two offsets at one place the sum of two known spans can be unknown. -/
example : (⟨⟨1, 1, 1⟩, {}⟩ + ⟨{}, ⟨5, 0, 0⟩⟩ : Span).isUnknown = true := by decide

section
variable (hL : OneText L) (ha : a.Within L) (hb : b.Within L)
include hL ha hb

theorem eq_of_covers (h : a.Covers b) (h' : b.Covers a) : a = b := by
  rcases unknown_or_known a b with rfl | rfl | ⟨hua, hub⟩
  · exact (eq_unknown_of_covers h).symm
  · exact eq_unknown_of_covers h'
  · obtain ⟨-, hstart, hstop⟩ := h hub
    obtain ⟨-, hstart', hstop'⟩ := h' hua
    exact ha.eq_of_places hL hb (hstart.antisymm hstart') (hstop'.antisymm hstop)

theorem add_covers_left : (a + b).Covers a := by
  rcases unknown_or_known a b with rfl | rfl | ⟨hua, hub⟩
  · exact covers_unknown _
  · rw [add_unknown]
    exact .refl a
  · have hsum := ha.unites_add hL hb hua hub
    exact fun _ =>
      ⟨hsum.known, hsum.start_place ▸ min_le_left _ _, hsum.stop_place ▸ le_max_left _ _⟩

theorem add_covers_right : (a + b).Covers b := by
  rcases unknown_or_known a b with rfl | rfl | ⟨hua, hub⟩
  · exact .refl b
  · exact covers_unknown _
  · have hsum := ha.unites_add hL hb hua hub
    exact fun _ =>
      ⟨hsum.known, hsum.start_place ▸ min_le_right _ _, hsum.stop_place ▸ le_max_right _ _⟩

/-- No smaller span than the sum covers both. -/
theorem covers_add (h : s.Covers a) (h' : s.Covers b) : s.Covers (a + b) := by
  rcases unknown_or_known a b with rfl | rfl | ⟨hua, hub⟩
  · exact h'
  · rwa [add_unknown]
  · have hsum := ha.unites_add hL hb hua hub
    obtain ⟨hs, hstart, hstop⟩ := h hua
    obtain ⟨-, hstart', hstop'⟩ := h' hub
    exact fun _ =>
      ⟨hs, hsum.start_place ▸ le_min hstart hstart', hsum.stop_place ▸ max_le hstop hstop'⟩

theorem add_comm : a + b = b + a := by
  refine (ha.add hb).eq_of_covers hL (hb.add ha) ?_ ?_
  · exact hb.covers_add hL ha (ha.add_covers_right hL hb) (ha.add_covers_left hL hb)
  · exact ha.covers_add hL hb (hb.add_covers_right hL ha) (hb.add_covers_left hL ha)

/-- Either side is the smallest span that covers all three. -/
theorem add_assoc (hc : c.Within L) : a + b + c = a + (b + c) := by
  have hab := ha.add hb
  have hbc := hb.add hc
  have hleft := hab.add_covers_left hL hc
  have hright := ha.add_covers_right hL hbc
  refine (hab.add hc).eq_of_covers hL (ha.add hbc) ?_ ?_
  · refine ha.covers_add hL hbc (hleft.trans (ha.add_covers_left hL hb)) ?_
    exact hb.covers_add hL hc (hleft.trans (ha.add_covers_right hL hb)) (hab.add_covers_right hL hc)
  · refine hab.covers_add hL hc ?_ (hright.trans (hb.add_covers_right hL hc))
    exact ha.covers_add hL hb (ha.add_covers_left hL hbc) (hright.trans (hb.add_covers_left hL hc))

theorem add_right_comm (hc : c.Within L) : a + b + c = a + c + b :=
  calc a + b + c = a + (b + c) := ha.add_assoc hL hb hc
    _ = a + (c + b) := by rw [hb.add_comm hL hc]
    _ = a + c + b := (ha.add_assoc hL hc hb).symm

end

/-- The order of spans that are added to one does not matter. -/
theorem foldl_eq_of_perm (hL : OneText L) (hs : s.Within L) {l l' : List Span}
    (hl : ∀ a ∈ l, a.Within L) (hperm : l.Perm l') : l.foldl (· + ·) s = l'.foldl (· + ·) s := by
  -- Two spans may change places behind a span of the text only, not behind any span, so that the
  -- text is carried along the permutation.
  induction hperm generalizing s with
  | nil => rfl
  | cons a _ ih =>
    obtain ⟨ha, hl⟩ := List.forall_mem_cons.mp hl
    exact ih (hs.add ha) hl
  | swap a b l =>
    obtain ⟨hb, hl⟩ := List.forall_mem_cons.mp hl
    obtain ⟨ha, -⟩ := List.forall_mem_cons.mp hl
    exact congrArg (l.foldl (· + ·)) (hs.add_right_comm hL hb ha)
  | trans hperm _ ih ih' =>
    exact (ih hs hl).trans (ih' hs fun a ha => hl a (hperm.mem_iff.mpr ha))

end Within

end Span

namespace Surface
open Location

/-! ## Spans of expressions -/

mutual

/-- The spans that the span of an expression is put together from. -/
def Expr.spans : Expr → List Span
  | .ternary guard _ no => guard.spans ++ no.spans
  | .binary _ left right => left.spans ++ right.spans
  | .unary s _ operand => s :: operand.spans
  | .call callee arguments close => callee.span :: close :: spansOf arguments
  | .name identifier => [identifier.span]
  | .paren s _ => [s]
  | .literal v => [v.span]

def spansOf : List Expr → List Span
  | [] => []
  | e :: rest => e.spans ++ spansOf rest

end

/-- All that the span of the expression is put together from is of the text. -/
def Expr.Within (e : Expr) (L : Set Location) : Prop := ∀ s ∈ e.spans, s.Within L

/-- The span of the second expression is put together from that of the first, among others. -/
inductive Expr.SpanPart : Expr → Expr → Prop
  | ternaryGuard (guard yes no) : SpanPart guard (.ternary guard yes no)
  | ternaryNo (guard yes no) : SpanPart no (.ternary guard yes no)
  | binaryLeft (op left right) : SpanPart left (.binary op left right)
  | binaryRight (op left right) : SpanPart right (.binary op left right)
  | operand (s op operand) : SpanPart operand (.unary s op operand)
  | argument (callee) {arguments} (close) {e} : e ∈ arguments →
      SpanPart e (.call callee arguments close)

variable {L : Set Location} {e inner : Expr}

theorem within_ternary {guard yes no : Expr} :
    (Expr.ternary guard yes no).Within L ↔ guard.Within L ∧ no.Within L :=
  List.forall_mem_append

theorem within_binary {op : BinOp} {left right : Expr} :
    (Expr.binary op left right).Within L ↔ left.Within L ∧ right.Within L :=
  List.forall_mem_append

theorem within_unary {s : Span} {op : UnOp} {operand : Expr} :
    (Expr.unary s op operand).Within L ↔ s.Within L ∧ operand.Within L :=
  List.forall_mem_cons

theorem forall_mem_spansOf {es : List Expr} :
    (∀ s ∈ spansOf es, s.Within L) ↔ ∀ e ∈ es, e.Within L := by
  induction es with
  | nil => exact iff_of_true nofun nofun
  | cons e es ih => rw [spansOf, List.forall_mem_append, List.forall_mem_cons, ih, Expr.Within]

theorem within_call {callee : Identifier} {arguments : List Expr} {close : Span} :
    (Expr.call callee arguments close).Within L ↔
      callee.span.Within L ∧ close.Within L ∧ ∀ e ∈ arguments, e.Within L := by
  rw [← forall_mem_spansOf]
  exact List.forall_mem_cons.trans (and_congr_right' List.forall_mem_cons)

mutual

theorem Expr.Within.span {e : Expr} (h : e.Within L) : e.span.Within L := by
  match e with
  | .ternary guard yes no =>
    obtain ⟨hguard, hno⟩ := within_ternary.mp h
    exact hguard.span.add hno.span
  | .binary op left right =>
    obtain ⟨hleft, hright⟩ := within_binary.mp h
    exact hleft.span.add hright.span
  | .unary s op operand =>
    obtain ⟨hs, hoperand⟩ := within_unary.mp h
    exact hs.add hoperand.span
  | .call callee arguments close =>
    obtain ⟨hcallee, hclose, harguments⟩ := within_call.mp h
    exact joinSpans_within (hcallee.add hclose) harguments
  | .name identifier => exact h _ List.mem_cons_self
  | .paren s inner => exact h _ List.mem_cons_self
  | .literal v => exact h _ List.mem_cons_self

theorem joinSpans_within {s : Span} (hs : s.Within L) {es : List Expr}
    (h : ∀ e ∈ es, e.Within L) : (joinSpans s es).Within L := by
  match es with
  | [] => exact hs
  | e :: rest =>
    obtain ⟨he, hrest⟩ := List.forall_mem_cons.mp h
    exact joinSpans_within (hs.add he.span) hrest

end

theorem Expr.Within.part (h : e.Within L) (hpart : inner.SpanPart e) : inner.Within L := by
  cases hpart with
  | ternaryGuard guard yes no => exact (within_ternary.mp h).1
  | ternaryNo guard yes no => exact (within_ternary.mp h).2
  | binaryLeft op left right => exact (within_binary.mp h).1
  | binaryRight op left right => exact (within_binary.mp h).2
  | operand s op operand => exact (within_unary.mp h).2
  | argument callee close hmem => exact (within_call.mp h).2.2 inner hmem

/-! ## The order of arguments -/

theorem joinSpans_eq_foldl (s : Span) (es : List Expr) :
    joinSpans s es = (es.map Expr.span).foldl (· + ·) s := by
  induction es generalizing s with
  | nil => rfl
  | cons e es ih => exact ih (s + e.span)

theorem span_call_of_perm (hL : OneText L) {callee : Identifier} {arguments : List Expr}
    {close : Span} (h : (Expr.call callee arguments close).Within L) {spans : List Span}
    (hperm : (arguments.map Expr.span).Perm spans) :
    (Expr.call callee arguments close).span = spans.foldl (· + ·) (callee.span + close) := by
  obtain ⟨hcallee, hclose, harguments⟩ := within_call.mp h
  rw [Expr.span, joinSpans_eq_foldl]
  refine (hcallee.add hclose).foldl_eq_of_perm hL ?_ hperm
  exact List.forall_mem_map.mpr fun e he => (harguments e he).span

/-! ## Parts -/

theorem joinSpans_covers (hL : OneText L) {s : Span} (hs : s.Within L) {es : List Expr}
    (hes : ∀ e ∈ es, e.Within L) :
    (joinSpans s es).Covers s ∧ ∀ e ∈ es, (joinSpans s es).Covers e.span := by
  induction es generalizing s with
  | nil => exact ⟨.refl s, nofun⟩
  | cons e es ih =>
    obtain ⟨he, hes⟩ := List.forall_mem_cons.mp hes
    obtain ⟨hsum, hrest⟩ := ih (hs.add he.span) hes
    refine ⟨hsum.trans (hs.add_covers_left hL he.span), List.forall_mem_cons.mpr ⟨?_, hrest⟩⟩
    exact hsum.trans (hs.add_covers_right hL he.span)

theorem Expr.Within.covers_part (hL : OneText L) (h : e.Within L) (hpart : inner.SpanPart e) :
    e.span.Covers inner.span := by
  cases hpart with
  | ternaryGuard guard yes no =>
    obtain ⟨hguard, hno⟩ := within_ternary.mp h
    exact hguard.span.add_covers_left hL hno.span
  | ternaryNo guard yes no =>
    obtain ⟨hguard, hno⟩ := within_ternary.mp h
    exact hguard.span.add_covers_right hL hno.span
  | binaryLeft op left right =>
    obtain ⟨hleft, hright⟩ := within_binary.mp h
    exact hleft.span.add_covers_left hL hright.span
  | binaryRight op left right =>
    obtain ⟨hleft, hright⟩ := within_binary.mp h
    exact hleft.span.add_covers_right hL hright.span
  | operand s op operand =>
    obtain ⟨hs, hoperand⟩ := within_unary.mp h
    exact hs.add_covers_right hL hoperand.span
  | argument callee close hmem =>
    obtain ⟨hcallee, hclose, harguments⟩ := within_call.mp h
    exact (joinSpans_covers hL (hcallee.add hclose) harguments).2 inner hmem

theorem Expr.Within.covers_parts (hL : OneText L) (h : e.Within L)
    (hpart : Relation.TransGen Expr.SpanPart inner e) : e.span.Covers inner.span := by
  induction hpart with
  | single hpart => exact h.covers_part hL hpart
  | tail _ hpart ih => exact (h.covers_part hL hpart).trans (ih (h.part hpart))

/-! ## Spans of a text and of its expressions -/

/-- Sums of the spans of one text, and what follows for expressions: the arguments of a call may be
joined in any order, and no known part, however deep, begins before an expression or ends
after it. -/
theorem union_of_spans {L : Set Location} (hL : OneText L) :
    (∀ a b c : Span, a.Within L → b.Within L → c.Within L → a + b + c = a + (b + c)) ∧
    (∀ a b : Span, a.Within L → b.Within L → a + b = b + a) ∧
    (∀ a : Span, a + a = a ∧ {} + a = a ∧ a + {} = a) ∧
    (∀ a b : Span, a.Within L → b.Within L → a.isUnknown = false → b.isUnknown = false →
      (a + b).Unites a b) ∧
    (∀ callee arguments close, (Expr.call callee arguments close).Within L →
      ∀ spans, (arguments.map Expr.span).Perm spans →
        (Expr.call callee arguments close).span = spans.foldl (· + ·) (callee.span + close)) ∧
    ∀ e inner : Expr, e.Within L → Relation.TransGen Expr.SpanPart inner e →
      e.span.Covers inner.span := by
  refine ⟨fun a b c ha hb hc => ha.add_assoc hL hb hc, fun a b ha hb => ha.add_comm hL hb,
    fun a => ⟨a.add_self, a.unknown_add, a.add_unknown⟩,
    fun a b ha hb => ha.unites_add hL hb, ?_, fun e inner h => h.covers_parts hL⟩
  exact fun callee arguments close h spans => span_call_of_perm hL h

/-- The locations of `f(-x,` and of `y)` on the next line. -/
def wrapped : List Location :=
  [{}, ⟨0, 1, 1⟩, ⟨2, 1, 3⟩, ⟨3, 1, 4⟩, ⟨6, 2, 1⟩, ⟨7, 2, 2⟩]

def wrappedCall : Expr :=
  .call ⟨"f", .single ⟨0, 1, 1⟩⟩
    [.unary (.single ⟨2, 1, 3⟩) .minus (.name ⟨"x", .single ⟨3, 1, 4⟩⟩),
      .name ⟨"y", .single ⟨6, 2, 1⟩⟩]
    (.single ⟨7, 2, 2⟩)

/-- A call over two lines, and spans of which one end is missing. -/
theorem union_of_spans_wrapped :
    let L : Set Location := {l | l ∈ wrapped}
    let a : Span := ⟨{}, ⟨3, 1, 4⟩⟩
    let b : Span := ⟨⟨2, 1, 3⟩, {}⟩
    let x : Expr := .name ⟨"x", .single ⟨3, 1, 4⟩⟩
    OneText L ∧ a.Within L ∧ b.Within L ∧ wrappedCall.Within L ∧
      a.isUnknown = false ∧ b.isUnknown = false ∧
      a + b + a = a + (b + a) ∧ a + b = b + a ∧ (a + b).Unites a b ∧
      wrappedCall.span = [.single ⟨6, 2, 1⟩, ⟨⟨2, 1, 3⟩, ⟨3, 1, 4⟩⟩].foldl (· + ·)
        (.single ⟨0, 1, 1⟩ + .single ⟨7, 2, 2⟩) ∧
      Relation.TransGen Expr.SpanPart x wrappedCall ∧ wrappedCall.span.Covers x.span := by
  intro L a b x
  have hoffset : ∀ a ∈ wrapped, ∀ b ∈ wrapped, a.line = b.line → a.column = b.column →
      a.offset = b.offset := by decide
  have hL : OneText L := ⟨List.mem_cons_self, hoffset⟩
  have hwithin : ∀ s : Span, s.start ∈ wrapped ∧ s.stop ∈ wrapped → s.Within L := fun _ h =>
    ⟨h.1, h.2⟩
  have ha : a.Within L := hwithin a (by decide)
  have hb : b.Within L := hwithin b (by decide)
  have hspans : ∀ s ∈ wrappedCall.spans, s.start ∈ wrapped ∧ s.stop ∈ wrapped := by decide
  have hcall : wrappedCall.Within L := fun s hs => hwithin s (hspans s hs)
  have hx : Relation.TransGen Expr.SpanPart x wrappedCall :=
    .tail (.single (.operand _ _ _)) (.argument _ _ List.mem_cons_self)
  obtain ⟨hassoc, hcomm, -, hunites, horder, hparts⟩ := union_of_spans hL
  exact ⟨hL, ha, hb, hcall, rfl, rfl, hassoc a b a ha hb ha, hcomm a b ha hb,
    hunites a b ha hb rfl rfl, horder _ _ _ hcall _ (.swap _ _ _), hx, hparts _ _ hcall hx⟩

end Surface
end PZero
