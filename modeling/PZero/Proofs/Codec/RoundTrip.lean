import PZero.Bytecode.Codec
import PZero.Proofs.Codec.DescriptorText

/-! # A module is read back from its bytes

Every reader undoes the writer of the same part and stops where that part ends,
whatever bytes follow. Sequences and whole modules only put such readers behind one
another, so the law for them comes from the law for their parts. Lengths are stored
in 32 bits, which is all that a module has to respect.
-/
namespace PZero.Bytecode

/-- A text whose length in bytes has 32 bits. -/
def TextFits (s : String) : Prop := s.utf8ByteSize < 2 ^ 32

instance (s : String) : Decidable (TextFits s) := inferInstanceAs (Decidable (_ < _))

def Constant.Fits : Constant → Prop
  | .string s => TextFits s
  | _ => True

instance : (c : Constant) → Decidable c.Fits
  | .string s => inferInstanceAs (Decidable (TextFits s))
  | .int _ | .float _ | .bool _ => .isTrue trivial

def Field.Fits (f : Field) : Prop := TextFits f.name ∧ f.initial.Fits

instance (f : Field) : Decidable f.Fits := inferInstanceAs (Decidable (_ ∧ _))

/-- The texts of an instruction. -/
def Instruction.texts : Instruction → List String
  | .sconst s => [s]
  | .getStatic r | .putStatic r => [r.owner, r.name]
  | .invoke r => [r.owner, r.name, r.descriptor.text]
  | _ => []

def Instruction.Fits (i : Instruction) : Prop := ∀ s ∈ i.texts, TextFits s

instance (i : Instruction) : Decidable i.Fits := inferInstanceAs (Decidable (∀ s ∈ _, _))

def Routine.Fits (r : Routine) : Prop :=
  TextFits r.name ∧ TextFits r.descriptor.text ∧ r.code.size < 2 ^ 32 ∧
    ∀ i ∈ r.code.toList, i.Fits

instance (r : Routine) : Decidable r.Fits := inferInstanceAs (Decidable (_ ∧ _))

/-- Every text of the module, descriptors included, and every sequence has a length of 32 bits. -/
def Module.Fits (m : Module) : Prop :=
  TextFits m.name ∧ m.fields.length < 2 ^ 32 ∧ m.routines.length < 2 ^ 32 ∧
    (∀ f ∈ m.fields, f.Fits) ∧ ∀ r ∈ m.routines, r.Fits

instance (m : Module) : Decidable m.Fits := inferInstanceAs (Decidable (_ ∧ _))

namespace Codec
variable {α β : Type}

/-- Where `bytes` stand, `read` consumes just these and returns `a`. -/
def Reads (read : Reader α) (bytes : Bytes) (a : α) : Prop :=
  ∀ offset rest, read ⟨offset, bytes ++ rest⟩ = .ok (a, ⟨offset + bytes.length, rest⟩)

namespace Reads

theorem pure (a : α) : Reads (pure a) [] a := fun _ _ => rfl

theorem bind {read : Reader α} {next : α → Reader β} {bytes more : Bytes} {a : α} {b : β}
    (ha : Reads read bytes a) (hb : Reads (next a) more b) :
    Reads (read >>= next) (bytes ++ more) b := by
  intro offset rest
  change (read ⟨offset, bytes ++ more ++ rest⟩).bind (fun p => next p.1 p.2) = _
  rw [List.append_assoc, ha]
  change next a ⟨offset + bytes.length, more ++ rest⟩ = _
  rw [hb, List.length_append, Nat.add_assoc]

/-- The offset is known without reading. -/
theorem offset_bind {next : Nat → Reader β} {bytes : Bytes} {b : β}
    (h : ∀ start, Reads (next start) bytes b) : Reads (offset >>= next) bytes b :=
  fun start rest => h start start rest

/-- What was read is accepted without reading further. -/
theorem accept {read : Reader α} {next : α → Reader β} {bytes : Bytes} {a : α} {b : β}
    (ha : Reads read bytes a) (hb : next a = Pure.pure b) : Reads (read >>= next) bytes b := by
  have h : Reads (next a) [] b := hb ▸ pure b
  have hbind := bind ha h
  rwa [List.append_nil] at hbind

theorem map {read : Reader α} {bytes : Bytes} {a : α} (f : α → β) (h : Reads read bytes a) :
    Reads (do return f (← read)) bytes (f a) := accept h rfl

theorem take (bytes : Bytes) : Reads (take bytes.length) bytes bytes := by
  intro offset rest
  simp [Codec.take]

end Reads

/-! ## Numbers -/

theorem reads_uint8 (b : UInt8) : Reads uint8 [b] b :=
  Reads.map (fun bytes : Bytes => bytes.headD 0) (Reads.take [b])

theorem fromDigits_ofUInt16 (v : UInt16) : UInt16.ofNat (fromDigits (ofUInt16 v)) = v := by
  apply UInt16.toNat_inj.mp
  have hv := v.toNat_lt
  simp [fromDigits, ofUInt16]
  omega

theorem reads_uint16 (v : UInt16) : Reads uint16 (ofUInt16 v) v := by
  have h := Reads.map (fun bytes => UInt16.ofNat (fromDigits bytes)) (Reads.take (ofUInt16 v))
  rwa [fromDigits_ofUInt16] at h

theorem fromDigits_ofUInt32 (v : UInt32) : UInt32.ofNat (fromDigits (ofUInt32 v)) = v := by
  apply UInt32.toNat_inj.mp
  have hv := v.toNat_lt
  simp [fromDigits, ofUInt32]
  omega

theorem reads_uint32 (v : UInt32) : Reads uint32 (ofUInt32 v) v := by
  have h := Reads.map (fun bytes => UInt32.ofNat (fromDigits bytes)) (Reads.take (ofUInt32 v))
  rwa [fromDigits_ofUInt32] at h

theorem reads_int32 (v : Int32) : Reads int32 (ofUInt32 v.toUInt32) v :=
  Reads.map UInt32.toInt32 (reads_uint32 v.toUInt32)

theorem reads_single (x : Single) : Reads single (ofUInt32 x.bits) x :=
  Reads.map Single.mk (reads_uint32 x.bits)

/-! ## Texts and tags -/

theorem fromUTF8?_bytes (s : String) :
    String.fromUTF8? ⟨s.toUTF8.data.toList.toArray⟩ = some s := by
  simp [String.fromUTF8?, String.fromUTF8, s.isValidUTF8]

theorem reads_string {s : String} (h : TextFits s) : Reads string (ofString s) s := by
  have hsize : s.toUTF8.size < 2 ^ 32 := h
  refine (reads_uint32 (UInt32.ofNat s.toUTF8.size)).bind (Reads.offset_bind fun start => ?_)
  rw [UInt32.toNat_ofNat_of_lt' hsize]
  exact (Reads.take s.toUTF8.data.toList).accept (by rw [fromUTF8?_bytes])

theorem reads_fieldType (t : FieldType) : Reads fieldType (ofFieldType t) t :=
  Reads.offset_bind fun start =>
    (reads_uint8 t.letter.toNat.toUInt8).accept (by cases t <;> rfl)

theorem reads_condition (c : Condition) : Reads condition [c.byte] c :=
  Reads.offset_bind fun start => (reads_uint8 c.byte).accept (by rw [Condition.ofByte?_byte])

theorem reads_descriptor {d : Descriptor} (h : TextFits d.text) :
    Reads descriptor (ofString d.text) d :=
  (reads_string h).accept (by rw [Descriptor.parse_text])

theorem reads_constant {c : Constant} (h : c.Fits) : Reads constant (ofConstant c) c := by
  refine (reads_fieldType c.type).bind ?_
  cases c with
  | int v => exact Reads.map Constant.int (reads_int32 v)
  | float v => exact Reads.map Constant.float (reads_single v)
  | bool v => exact (reads_uint8 _).accept (by cases v <;> rfl)
  | string s => exact Reads.map Constant.string (reads_string h)

/-! ## Instructions -/

theorem reads_fieldRef {r : FieldRef} (h : ∀ s ∈ [r.owner, r.name], TextFits s) :
    Reads fieldRef (ofFieldRef r) r := by
  rw [ofFieldRef, List.append_assoc]
  refine (reads_string (h _ (by simp))).bind ((reads_string (h _ (by simp))).bind ?_)
  exact Reads.map (FieldRef.mk r.owner r.name) (reads_fieldType r.type)

theorem reads_routineRef {r : RoutineRef}
    (h : ∀ s ∈ [r.owner, r.name, r.descriptor.text], TextFits s) :
    Reads routineRef (ofRoutineRef r) r := by
  rw [ofRoutineRef, List.append_assoc]
  refine (reads_string (h _ (by simp))).bind ((reads_string (h _ (by simp))).bind ?_)
  exact Reads.map (RoutineRef.mk r.owner r.name) (reads_descriptor (h _ (by simp)))

/-- A jump is its condition and its target. -/
theorem reads_jump (jump : Condition → UInt32 → Instruction) (c : Condition) (t : UInt32) :
    Reads (do return jump (← condition) (← uint32)) (c.byte :: ofUInt32 t) (jump c t) :=
  (reads_condition c).bind (Reads.map (jump c) (reads_uint32 t))

/-- The operands of an instruction are read back for its opcode. -/
theorem reads_operands {i : Instruction} (h : i.Fits) :
    Reads (instructionOf i.opcode) (operands i) i := by
  cases i with
  | iconst v => exact Reads.map Instruction.iconst (reads_int32 v)
  | fconst v => exact Reads.map Instruction.fconst (reads_single v)
  | sconst s => exact Reads.map Instruction.sconst (reads_string (h s List.mem_cons_self))
  | iload slot => exact Reads.map Instruction.iload (reads_uint16 slot)
  | fload slot => exact Reads.map Instruction.fload (reads_uint16 slot)
  | istore slot => exact Reads.map Instruction.istore (reads_uint16 slot)
  | fstore slot => exact Reads.map Instruction.fstore (reads_uint16 slot)
  | getStatic r => exact Reads.map Instruction.getStatic (reads_fieldRef h)
  | putStatic r => exact Reads.map Instruction.putStatic (reads_fieldRef h)
  | ifZero c t => exact reads_jump Instruction.ifZero c t
  | ifCompare c t => exact reads_jump Instruction.ifCompare c t
  | goto t => exact Reads.map Instruction.goto (reads_uint32 t)
  | invoke r => exact Reads.map Instruction.invoke (reads_routineRef h)
  | print t => exact Reads.map Instruction.print (reads_fieldType t)
  | printFixed places => exact Reads.map Instruction.printFixed (reads_uint8 places)
  | _ => exact Reads.pure _

theorem reads_instruction {i : Instruction} (h : i.Fits) :
    Reads instruction (ofInstruction i) i := by
  refine Reads.offset_bind fun start => (reads_uint8 i.opcode.byte).bind ?_
  rw [Opcode.ofByte?_byte]
  exact reads_operands h

/-! ## Sequences and modules -/

theorem reads_times {read : Reader α} {write : α → Bytes} (as : List α)
    (h : ∀ a ∈ as, Reads read (write a) a) : Reads (times read as.length) (as.flatMap write) as := by
  induction as with
  | nil => exact Reads.pure []
  | cons a as ih =>
    have hrest := ih fun b hb => h b (List.mem_cons_of_mem a hb)
    exact (h a List.mem_cons_self).bind (Reads.map (a :: ·) hrest)

theorem reads_counted {read : Reader α} {write : α → Bytes} {as : List α}
    (hlength : as.length < 2 ^ 32) (h : ∀ a ∈ as, Reads read (write a) a) :
    Reads (counted read) (ofCount as.length ++ as.flatMap write) as := by
  refine (reads_uint32 (UInt32.ofNat as.length)).bind ?_
  rw [UInt32.toNat_ofNat_of_lt' hlength]
  exact reads_times as h

theorem flag_ofBool (b : Bool) : ((if b then 1 else 0 : UInt8) &&& 1 != 0) = b := by
  cases b <;> decide

theorem reads_field {f : Field} (h : f.Fits) : Reads field (ofField f) f := by
  simp only [ofField, List.append_assoc]
  refine (reads_string h.1).bind ((reads_uint8 _).bind ((reads_fieldType f.type).bind ?_))
  exact (reads_constant h.2).accept (by rw [flag_ofBool])

theorem reads_routine {r : Routine} (h : r.Fits) : Reads routine (ofRoutine r) r := by
  obtain ⟨hname, hdescriptor, hsize, hcode⟩ := h
  simp only [ofRoutine, List.append_assoc]
  refine (reads_string hname).bind ((reads_descriptor hdescriptor).bind ?_)
  refine (reads_uint16 r.maxLocals).bind ?_
  exact (reads_counted hsize fun i hi => reads_instruction (hcode i hi)).accept rfl

/-- From the last `bytes` of a module `read` gets `a`. -/
def ReadsLast (read : Reader α) (bytes : Bytes) (a : α) : Prop :=
  ∀ offset, read.run' ⟨offset, bytes⟩ = .ok a

theorem Reads.bind_last {read : Reader α} {next : α → Reader β} {bytes more : Bytes} {a : α} {b : β}
    (ha : Reads read bytes a) (hb : ReadsLast (next a) more b) :
    ReadsLast (read >>= next) (bytes ++ more) b := by
  intro offset
  change ((read ⟨offset, bytes ++ more⟩).bind fun p => next p.1 p.2).map Prod.fst = _
  rw [ha]
  exact hb _

theorem readsLast_body {m : Module} (h : m.Fits) :
    ReadsLast body (ofUInt16 version ++ (ofString m.name ++
      (ofCount m.fields.length ++ m.fields.flatMap ofField ++
        (ofCount m.routines.length ++ m.routines.flatMap ofRoutine ++ [])))) m := by
  obtain ⟨hname, hfields, hroutines, hfield, hroutine⟩ := h
  refine (reads_uint16 version).bind_last ?_
  refine (reads_string hname).bind_last ?_
  refine (reads_counted hfields fun f hf => reads_field (hfield f hf)).bind_last ?_
  refine (reads_counted hroutines fun r hr => reads_routine (hroutine r hr)).bind_last ?_
  exact fun offset => rfl

end Codec

/-- Decoding the bytes of a module gives the module back, floats by their bits. -/
theorem decode_encode {m : Module} (h : m.Fits) : Module.decode m.encode = .ok m := by
  have hbody := Codec.readsLast_body h Codec.magic.length
  have hmagic : ∀ bytes, (Codec.magic ++ bytes).take Codec.magic.length = Codec.magic := by simp
  have hrest : ∀ bytes, (Codec.magic ++ bytes).drop Codec.magic.length = bytes := by simp
  simp only [Module.encode, List.append_assoc, Module.decode, hmagic, hrest, ↓reduceIte]
  simpa only [List.append_assoc, List.append_nil] using hbody

/-- A field whose initial value is of another type than the field, a float that is not a number with
a payload, and a jump behind the end of its code. -/
def oddModule : Module :=
  { name := "π"
    fields := [⟨"x", true, .bool, .float ⟨0x7fc01234⟩⟩]
    routines := [⟨"f", ⟨[.int, .bool], some .float⟩, 3,
      #[.fconst ⟨0xffc00001⟩, .ifCompare .le 9, .invoke ⟨"π", "g", ⟨[.string], none⟩⟩, .fret]⟩] }

theorem decode_encode_oddModule :
    oddModule.Fits ∧ Module.decode oddModule.encode = .ok oddModule :=
  ⟨by decide, decode_encode (by decide)⟩

end PZero.Bytecode
