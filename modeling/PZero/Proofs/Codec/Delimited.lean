import Mathlib
import PZero.Bytecode.Codec

/-! # Where a module ends

Every reader decides by the bytes that it consumes. What follows them makes no
difference, and when some of them are missing the input has ended too early. This
is kept when readers are put behind one another, so it holds of a whole module: what
is accepted is neither shortened nor continued to anything else that is accepted.
-/
namespace PZero.Bytecode
namespace Codec
variable {α β : Type}

/-- From an offset on, `read` gets `a` from just these bytes, whatever follows them. -/
def ReadsAt (read : Reader α) (offset : Nat) (bytes : Bytes) (a : α) : Prop :=
  ∀ rest, read ⟨offset, bytes ++ rest⟩ = .ok (a, ⟨offset + bytes.length, rest⟩)

/-- What a reader returns comes from the bytes that it consumed; without the last of them the input
ends too early. Whether anything is left over is not for a part to decide. -/
structure Delimited (read : Reader α) : Prop where
  consumed : ∀ {c c' : Cursor} {a : α}, read c = .ok (a, c') → ∃ bytes,
    c.rest = bytes ++ c'.rest ∧ c'.offset = c.offset + bytes.length ∧
      ReadsAt read c.offset bytes a
  cut : ∀ {offset : Nat} {bytes p : Bytes} {a : α}, ReadsAt read offset bytes a → p <+: bytes →
    p ≠ bytes → ∃ k, read ⟨offset, p⟩ = .error (.unexpectedEnd k)
  not_trailing : ∀ {c : Cursor} {count : Nat}, read c ≠ .error (.trailingBytes count)

theorem run_bind (read : Reader α) (next : α → Reader β) (c : Cursor) :
    (read >>= next) c = (read c).bind fun p => next p.1 p.2 := rfl

theorem run_bind_eq_ok {read : Reader α} {next : α → Reader β} {c c'' : Cursor} {b : β}
    (h : (read >>= next) c = .ok (b, c'')) :
    ∃ a c', read c = .ok (a, c') ∧ next a c' = .ok (b, c'') := by
  rw [run_bind] at h
  cases hread : read c with
  | error e =>
    rw [hread] at h
    cases h
  | ok p =>
    rw [hread] at h
    exact ⟨p.1, p.2, rfl, h⟩

namespace ReadsAt
variable {read : Reader α} {next : α → Reader β} {offset : Nat} {bytes more : Bytes} {a : α} {b : β}

theorem bind (ha : ReadsAt read offset bytes a)
    (hb : ReadsAt (next a) (offset + bytes.length) more b) :
    ReadsAt (read >>= next) offset (bytes ++ more) b := by
  intro rest
  rw [run_bind, List.append_assoc, ha]
  change next a ⟨offset + bytes.length, more ++ rest⟩ = _
  rw [hb, List.length_append, Nat.add_assoc]

/-- A reader that succeeds without consuming anything. -/
theorem eq_nil (h : ReadsAt read offset bytes a)
    (hread : ∀ {c c' : Cursor} {a : α}, read c = .ok (a, c') → c' = c) : bytes = [] := by
  have hc := hread (h [])
  have hrest : [] = bytes ++ [] := congrArg Cursor.rest hc
  rw [List.append_nil] at hrest
  exact hrest.symm

/-- What two readers get behind one another, each gets from its part. -/
theorem of_bind (hr : Delimited read) (hn : ∀ a, Delimited (next a))
    (h : ReadsAt (read >>= next) offset bytes b) :
    ∃ a l r, bytes = l ++ r ∧ ReadsAt read offset l a ∧
      ReadsAt (next a) (offset + l.length) r b := by
  obtain ⟨a, ⟨offset', rest⟩, hread, hnext⟩ := run_bind_eq_ok (h [])
  obtain ⟨l, hl, hoffset, hreads⟩ := hr.consumed hread
  obtain ⟨r, hrest, -, hreads'⟩ := (hn a).consumed hnext
  simp only [List.append_nil] at hl hrest hoffset
  rw [hrest] at hl
  rw [hoffset] at hreads'
  exact ⟨a, l, r, hl, hreads, hreads'⟩

theorem eq_of_take {n : Nat} {a : Bytes} (h : ReadsAt (take n) offset bytes a) :
    bytes.length = n ∧ a = bytes := by
  have hall := h []
  simp only [take, List.append_nil] at hall
  split at hall
  · next hlength =>
    obtain ⟨rfl, hcursor⟩ := Prod.mk.inj (Except.ok.inj hall)
    have hdrop : bytes.drop n = [] := congrArg Cursor.rest hcursor
    have hle : bytes.length ≤ n := List.drop_eq_nil_iff.mp hdrop
    rw [List.take_of_length_le hle] at hlength ⊢
    exact ⟨hlength, rfl⟩
  · cases hall

end ReadsAt

namespace Delimited
variable {read : Reader α} {next : α → Reader β}

/-- A reader that consumes nothing has nothing to miss. -/
theorem of_idle (hidle : ∀ {c c' : Cursor} {a : α}, read c = .ok (a, c') →
      c' = c ∧ ReadsAt read c.offset [] a)
    (htrailing : ∀ {c : Cursor} {count : Nat}, read c ≠ .error (.trailingBytes count)) :
    Delimited read where
  consumed h := by
    obtain ⟨rfl, hreads⟩ := hidle h
    exact ⟨[], rfl, rfl, hreads⟩
  cut h hp hne := by
    obtain rfl := h.eq_nil fun h => (hidle h).1
    exact absurd (List.prefix_nil.mp hp) hne
  not_trailing := htrailing

theorem pure (a : α) : Delimited (pure a : Reader α) :=
  of_idle (fun h => by cases h; exact ⟨rfl, fun _ => rfl⟩) fun h => by cases h

theorem throw {e : Error} (he : ∀ count, e ≠ .trailingBytes count) :
    Delimited (throw e : Reader α) :=
  of_idle (fun h => by cases h) fun h => by cases h; exact he _ rfl

theorem offset : Delimited offset :=
  of_idle (fun h => by cases h; exact ⟨rfl, fun _ => rfl⟩) fun h => by cases h

theorem take (n : Nat) : Delimited (take n) where
  consumed {c c' a} h := by
    simp only [Codec.take] at h
    split at h
    · next hlength =>
      cases h
      refine ⟨c.rest.take n, (List.take_append_drop n c.rest).symm, by rw [hlength], fun rest => ?_⟩
      simp [Codec.take, hlength]
    · cases h
  cut {offset bytes p a} h hp hne := by
    obtain ⟨hlength, -⟩ := h.eq_of_take
    have hlt : p.length < n :=
      hlength ▸ Nat.lt_of_le_of_ne hp.length_le fun heq => hne (hp.eq_of_length heq)
    have hshort : (p.take n).length ≠ n := by
      rw [List.length_take]
      omega
    exact ⟨offset, if_neg hshort⟩
  not_trailing {c count} h := by
    simp only [Codec.take] at h
    split at h <;> cases h

/-- Readers behind one another. A cut falls into the part of the first one or into that of the
second one. -/
theorem bind (hr : Delimited read) (hn : ∀ a, Delimited (next a)) : Delimited (read >>= next) where
  consumed {c c'' b} h := by
    obtain ⟨a, c', hread, hnext⟩ := run_bind_eq_ok h
    obtain ⟨l, hl, hoffset, hreads⟩ := hr.consumed hread
    obtain ⟨r, hrest, hoffset', hreads'⟩ := (hn a).consumed hnext
    rw [hoffset] at hreads' hoffset'
    refine ⟨l ++ r, ?_, ?_, hreads.bind hreads'⟩
    · rw [hl, hrest, List.append_assoc]
    · rw [hoffset', List.length_append, Nat.add_assoc]
  cut {offset bytes p b} h hp hne := by
    obtain ⟨a, l, r, rfl, hreads, hreads'⟩ := ReadsAt.of_bind hr hn h
    rw [run_bind]
    by_cases hl : l <+: p
    · obtain ⟨q, rfl⟩ := hl
      obtain ⟨k, hk⟩ := (hn a).cut hreads' ((List.prefix_append_right_inj l).mp hp)
        fun heq => hne (heq ▸ rfl)
      rw [hreads q]
      exact ⟨k, hk⟩
    · have hpl : p <+: l :=
        (List.prefix_or_prefix_of_prefix hp (List.prefix_append l r)).resolve_right hl
      obtain ⟨k, hk⟩ := hr.cut hreads hpl fun heq => hl (heq ▸ List.prefix_rfl)
      rw [hk]
      exact ⟨k, rfl⟩
  not_trailing {c count} h := by
    rw [run_bind] at h
    cases hread : read c with
    | error e =>
      rw [hread] at h
      cases h
      exact hr.not_trailing hread
    | ok p =>
      rw [hread] at h
      exact (hn p.1).not_trailing h

theorem map (hr : Delimited read) (f : α → β) : Delimited (do return f (← read)) :=
  hr.bind fun _ => pure _

end Delimited

/-! ## The parts of a module -/

/-- A byte that stands for something; the error for one that does not is told the byte and where it
is. -/
def selected (select : UInt8 → Option α) (error : UInt8 → Nat → Error) : Reader α := do
  let start ← offset
  let byte ← uint8
  match select byte with
  | some a => return a
  | none => throw (error byte start)

theorem fieldType_eq : fieldType =
    selected (fun tag => FieldType.ofLetter? (Char.ofNat tag.toNat)) (.invalidTag .fieldType) := by
  unfold fieldType selected
  congr
  funext start
  congr
  funext tag
  dsimp only
  cases FieldType.ofLetter? (Char.ofNat tag.toNat) <;> rfl

theorem condition_eq : condition = selected Condition.ofByte? (.invalidTag .condition) := by
  unfold condition selected
  congr
  funext start
  congr
  funext tag
  cases Condition.ofByte? tag <;> rfl

def opcode : Reader Opcode := selected Opcode.ofByte? .unknownOpcode

theorem instruction_eq : instruction = opcode >>= instructionOf := by
  unfold instruction opcode selected
  rw [bind_assoc]
  congr
  funext start
  rw [bind_assoc]
  congr
  funext byte
  cases Opcode.ofByte? byte <;> rfl

theorem parse_eq_error {s : String} {e : Error} (h : Descriptor.parse s = .error e) :
    e = .invalidDescriptor s := by
  unfold Descriptor.parse at h
  split at h
  · cases h
  · exact (Except.error.inj h).symm

/-- A constant behind its type. -/
def payload : FieldType → Reader Constant
  | .int => return .int (← int32)
  | .float => return .float (← single)
  | .bool => return .bool ((← uint8) != 0)
  | .string => return .string (← string)

theorem constant_eq : constant = fieldType >>= payload := rfl

/-- A module behind its version, whatever follows it. -/
def parts : Reader Module := do
  let name ← string
  let fields ← counted field
  let routines ← counted routine
  return { name, fields, routines }

/-- A module behind its magic, whatever follows it. -/
def contents : Reader Module := do
  let v ← uint16
  if v != version then throw (.unsupportedVersion v) else parts

/-- A property that readers keep when they are put behind one another, and that those have which
refuse some of what they read. -/
structure Compositional (P : ∀ α : Type, Reader α → Prop) : Prop where
  pure : ∀ {α : Type} (a : α), P α (Pure.pure a)
  bind : ∀ {α β : Type} {read : Reader α} {next : α → Reader β}, P α read →
    (∀ a, P β (next a)) → P β (read >>= next)
  take : ∀ n, P Bytes (Codec.take n)
  string : P String Codec.string
  fieldType : P FieldType Codec.fieldType
  condition : P Condition Codec.condition
  opcode : P Opcode Codec.opcode
  invalidDescriptor : ∀ s, P Descriptor (throw (.invalidDescriptor s))
  unsupportedVersion : ∀ v, P Module (throw (.unsupportedVersion v))

namespace Compositional
variable {P : ∀ α : Type, Reader α → Prop} (h : Compositional P)
include h

theorem map {read : Reader α} (hr : P α read) (f : α → β) : P β (do return f (← read)) :=
  h.bind hr fun _ => h.pure _

theorem uint8 : P UInt8 Codec.uint8 := h.map (h.take 1) _

theorem uint16 : P UInt16 Codec.uint16 := h.map (h.take 2) _

theorem uint32 : P UInt32 Codec.uint32 := h.map (h.take 4) _

theorem single : P Single Codec.single := h.map h.uint32 _

theorem int32 : P Int32 Codec.int32 := h.map h.uint32 _

theorem descriptor : P Descriptor Codec.descriptor := by
  refine h.bind h.string fun s => ?_
  split
  · exact h.pure _
  · next e he => exact parse_eq_error he ▸ h.invalidDescriptor s

theorem payload (t : FieldType) : P Constant (Codec.payload t) := by
  cases t with
  | int => exact h.map h.int32 _
  | float => exact h.map h.single _
  | bool => exact h.map h.uint8 _
  | string => exact h.map h.string _

theorem constant : P Constant Codec.constant := constant_eq ▸ h.bind h.fieldType h.payload

theorem fieldRef : P FieldRef Codec.fieldRef :=
  h.bind h.string fun _ => h.bind h.string fun _ => h.map h.fieldType _

theorem routineRef : P RoutineRef Codec.routineRef :=
  h.bind h.string fun _ => h.bind h.string fun _ => h.map h.descriptor _

theorem jump (jump : Condition → UInt32 → Instruction) :
    P Instruction (do return jump (← Codec.condition) (← Codec.uint32)) :=
  h.bind h.condition fun _ => h.map h.uint32 _

theorem instructionOf (opcode : Opcode) : P Instruction (Codec.instructionOf opcode) := by
  cases opcode with
  | iconst => exact h.map h.int32 _
  | fconst => exact h.map h.single _
  | sconst => exact h.map h.string _
  | iload | fload | istore | fstore => exact h.map h.uint16 _
  | getStatic | putStatic => exact h.map h.fieldRef _
  | ifZero | ifCompare => exact h.jump _
  | goto => exact h.map h.uint32 _
  | invoke => exact h.map h.routineRef _
  | print => exact h.map h.fieldType _
  | printFixed => exact h.map h.uint8 _
  | _ => exact h.pure _

theorem instruction : P Instruction Codec.instruction :=
  instruction_eq ▸ h.bind h.opcode h.instructionOf

theorem times {read : Reader α} (hr : P α read) (n : Nat) : P (List α) (Codec.times read n) := by
  induction n with
  | zero => exact h.pure []
  | succ n ih => exact h.bind hr fun _ => h.map ih _

theorem counted {read : Reader α} (hr : P α read) : P (List α) (Codec.counted read) :=
  h.bind h.uint32 fun n => h.times hr n.toNat

theorem field : P Field Codec.field :=
  h.bind h.string fun _ => h.bind h.uint8 fun _ => h.bind h.fieldType fun _ => h.map h.constant _

theorem routine : P Routine Codec.routine :=
  h.bind h.string fun _ => h.bind h.descriptor fun _ => h.bind h.uint16 fun _ =>
    h.map (h.counted h.instruction) _

theorem parts : P Module Codec.parts :=
  h.bind h.string fun _ => h.bind (h.counted h.field) fun _ => h.map (h.counted h.routine) _

theorem versioned (v : UInt16) :
    P Module (if v != version then throw (.unsupportedVersion v) else Codec.parts) := by
  split
  · exact h.unsupportedVersion v
  · exact h.parts

theorem contents : P Module Codec.contents := h.bind h.uint16 h.versioned

end Compositional

/-! ## Whole modules -/

theorem delimited_string : Delimited string := by
  refine ((Delimited.take 4).map _).bind fun length => Delimited.offset.bind fun start => ?_
  refine (Delimited.take _).bind fun bytes => ?_
  split
  · exact .pure _
  · exact .throw nofun

theorem delimited_selected {select : UInt8 → Option α} {error : UInt8 → Nat → Error}
    (h : ∀ byte offset count, error byte offset ≠ .trailingBytes count) :
    Delimited (selected select error) := by
  refine Delimited.offset.bind fun start => ((Delimited.take 1).map _).bind fun byte => ?_
  split
  · exact .pure _
  · exact .throw (h byte start)

theorem delimited : Compositional @Delimited where
  pure := .pure
  bind := .bind
  take := .take
  string := delimited_string
  fieldType := fieldType_eq ▸ delimited_selected nofun
  condition := condition_eq ▸ delimited_selected nofun
  opcode := delimited_selected nofun
  invalidDescriptor _ := .throw nofun
  unsupportedVersion _ := .throw nofun

/-- Nothing may be left over behind a module. -/
def complete (m : Module) : Reader Module := do
  let rest := (← get).rest
  if rest.length != 0 then throw (.trailingBytes rest.length)
  return m

theorem body_eq : body = contents >>= complete := by
  unfold body contents parts
  rw [bind_assoc]
  congr
  funext v
  by_cases hv : (v != version) = true
  · simp only [hv, if_true]
    rfl
  · simp only [hv, Bool.false_eq_true, if_false, bind_assoc, pure_bind]
    rfl

theorem run_complete (m : Module) (c : Cursor) : (complete m).run' c =
    if c.rest = [] then .ok m else .error (.trailingBytes c.rest.length) := by
  obtain ⟨offset, rest⟩ := c
  cases rest <;> rfl

end Codec

open Codec

theorem decode_magic_append (tail : Bytes) : Module.decode (magic ++ tail) =
    (contents ⟨magic.length, tail⟩).bind fun p =>
      if p.2.rest = [] then .ok p.1 else .error (.trailingBytes p.2.rest.length) := by
  have hmagic : (magic ++ tail).take magic.length = magic := List.take_left
  rw [Module.decode, if_pos hmagic, List.drop_left, body_eq]
  change ((contents _).bind fun p => complete p.1 p.2).map Prod.fst = _
  cases contents ⟨magic.length, tail⟩ with
  | error e => rfl
  | ok p => exact run_complete p.1 p.2

theorem magic_prefix_or_badMagic (bytes : Bytes) :
    magic <+: bytes ∨ Module.decode bytes = .error .badMagic := by
  by_cases h : bytes.take magic.length = magic
  · exact .inl (List.prefix_iff_eq_take.mpr h.symm)
  · exact .inr (if_neg h)

/-- Accepted are the magic and a module behind it, up to the last byte. -/
theorem decode_eq_ok_iff {bytes : Bytes} {m : Module} : Module.decode bytes = .ok m ↔
    ∃ tail, bytes = magic ++ tail ∧ ReadsAt contents magic.length tail m := by
  constructor
  · intro h
    rcases magic_prefix_or_badMagic bytes with ⟨tail, rfl⟩ | hbad
    · rw [decode_magic_append] at h
      cases hc : contents ⟨magic.length, tail⟩ with
      | error e =>
        rw [hc] at h
        cases h
      | ok p =>
        obtain ⟨m', c'⟩ := p
        simp only [hc, Except.bind] at h
        split at h
        · next hrest =>
          cases h
          obtain ⟨used, htail, -, hreads⟩ := delimited.contents.consumed hc
          obtain rfl : tail = used := by rw [← List.append_nil used, ← hrest, ← htail]
          exact ⟨tail, rfl, hreads⟩
        · cases h
    · rw [hbad] at h
      cases h
  · rintro ⟨tail, rfl, hreads⟩
    have hc := hreads []
    rw [List.append_nil] at hc
    rw [decode_magic_append, hc]
    rfl

theorem decode_of_length_lt {p : Bytes} (h : p.length < magic.length) :
    Module.decode p = .error .badMagic := by
  refine (magic_prefix_or_badMagic p).resolve_left fun hp => ?_
  have hle := hp.length_le
  omega

/-- An accepted module that is cut off behind its magic. -/
theorem decode_of_cut {b p : Bytes} {m : Module} (h : Module.decode b = .ok m) (hp : p <+: b)
    (hne : p ≠ b) (hle : magic.length ≤ p.length) :
    ∃ k, Module.decode p = .error (.unexpectedEnd k) := by
  obtain ⟨tail, rfl, hreads⟩ := decode_eq_ok_iff.mp h
  obtain ⟨q, rfl⟩ : magic <+: p :=
    List.prefix_of_prefix_length_le (List.prefix_append magic tail) hp hle
  have hq : q <+: tail := (List.prefix_append_right_inj magic).mp hp
  have hne' : q ≠ tail := fun heq => hne (heq ▸ rfl)
  obtain ⟨k, hk⟩ := delimited.contents.cut hreads hq hne'
  exact ⟨k, by rw [decode_magic_append, hk]; rfl⟩

theorem decode_append {b x : Bytes} {m : Module} (h : Module.decode b = .ok m) (hx : x ≠ []) :
    Module.decode (b ++ x) = .error (.trailingBytes x.length) := by
  obtain ⟨tail, rfl, hreads⟩ := decode_eq_ok_iff.mp h
  rw [List.append_assoc, decode_magic_append, hreads x]
  exact if_neg hx

theorem decode_eq_trailing {c : Bytes} {count : Nat}
    (h : Module.decode c = .error (.trailingBytes count)) :
    ∃ b x m, c = b ++ x ∧ x ≠ [] ∧ count = x.length ∧ Module.decode b = .ok m := by
  rcases magic_prefix_or_badMagic c with ⟨tail, rfl⟩ | hbad
  · rw [decode_magic_append] at h
    cases hc : contents ⟨magic.length, tail⟩ with
    | error e =>
      rw [hc] at h
      cases h
      exact absurd hc delimited.contents.not_trailing
    | ok p =>
      obtain ⟨m, offset, x⟩ := p
      obtain ⟨used, htail, -, hreads⟩ := delimited.contents.consumed hc
      simp only [hc, Except.bind] at h
      split at h
      · cases h
      · next hx =>
        cases h
        refine ⟨magic ++ used, x, m, ?_, hx, rfl, decode_eq_ok_iff.mpr ⟨used, rfl, hreads⟩⟩
        rw [List.append_assoc, ← htail]
  · rw [hbad] at h
    cases h

/-- Nothing accepted begins with anything else that is accepted. A beginning of an accepted module
is not a module at all or ends too early; what follows one is counted; and what is reported to
follow does follow an accepted module. -/
theorem accepted_prefixFree (b : Bytes) :
    (∀ m, Module.decode b = .ok m →
      (∀ p, p <+: b → p ≠ b →
        (p.length < 5 → Module.decode p = .error .badMagic) ∧
        (5 ≤ p.length → ∃ k, Module.decode p = .error (.unexpectedEnd k))) ∧
      ∀ x, x ≠ [] → Module.decode (b ++ x) = .error (.trailingBytes x.length)) ∧
    ∀ count, Module.decode b = .error (.trailingBytes count) →
      1 ≤ count ∧ count < b.length ∧ ∃ m, Module.decode (b.take (b.length - count)) = .ok m := by
  refine ⟨fun m h => ⟨fun p hp hne => ⟨decode_of_length_lt, decode_of_cut h hp hne⟩,
    fun x hx => decode_append h hx⟩, fun count h => ?_⟩
  obtain ⟨c, x, m, rfl, hx, rfl, hc⟩ := decode_eq_trailing h
  obtain ⟨tail, rfl, -⟩ := decode_eq_ok_iff.mp hc
  have hpos : 0 < x.length := List.length_pos_iff.mpr hx
  have hmagic : 0 < magic.length := by decide
  refine ⟨hpos, ?_, m, ?_⟩
  · simp only [List.length_append]
    omega
  · rw [List.length_append, Nat.add_sub_cancel, List.take_left]
    exact hc

/-- A module that has a name and nothing else. -/
def namedOnly : Bytes := magic ++ [1, 0, 1, 0, 0, 0, 0x61, 0, 0, 0, 0, 0, 0, 0, 0]

theorem accepted_prefixFree_namedOnly :
    Module.decode namedOnly = .ok ⟨"a", [], []⟩ ∧
      Module.decode (namedOnly.take 4) = .error .badMagic ∧
      (∃ k, Module.decode (namedOnly.take 11) = .error (.unexpectedEnd k)) ∧
      Module.decode (namedOnly ++ [7, 7]) = .error (.trailingBytes 2) ∧
      ∃ m, Module.decode ((namedOnly ++ [7, 7]).take 20) = .ok m := by
  have haccepted : Module.decode namedOnly = .ok ⟨"a", [], []⟩ := by cbv
  obtain ⟨hcut, happend⟩ := (accepted_prefixFree namedOnly).1 _ haccepted
  have htrailing := happend [7, 7] (by decide)
  refine ⟨haccepted, (hcut _ (List.take_prefix 4 _) (by decide)).1 (by decide),
    (hcut _ (List.take_prefix 11 _) (by decide)).2 (by decide), htrailing, ?_⟩
  exact ((accepted_prefixFree (namedOnly ++ [7, 7])).2 2 htrailing).2.2

end PZero.Bytecode
