import PZero.Proofs.Codec.Delimited
import PZero.Proofs.Codec.RoundTrip

/-! # The bytes behind a value

What a reader got from bytes is taken back to them. Numbers, texts, tags and
instructions are only got from the bytes that are written for them, and a sequence
from one piece of bytes for each of its members.
-/
namespace PZero.Bytecode
namespace Codec
variable {α β : Type}

namespace ReadsAt
variable {read : Reader α} {next : α → Reader β} {offset : Nat} {bytes : Bytes} {b : β}

theorem of_offset_bind {next : Nat → Reader β}
    (h : ReadsAt (Codec.offset >>= next) offset bytes b) : ReadsAt (next offset) offset bytes b :=
  h

/-- What follows reads no further, it accepts what was read or not. -/
theorem of_accept (hr : Delimited read)
    (hnext : ∀ a, (∃ b, next a = pure b) ∨ ∃ e, next a = throw e)
    (h : ReadsAt (read >>= next) offset bytes b) :
    ∃ a, ReadsAt read offset bytes a ∧ next a = pure b := by
  obtain ⟨a, c, hread, haccept⟩ := run_bind_eq_ok (h [])
  rcases hnext a with ⟨b', hb⟩ | ⟨e, he⟩
  · rw [hb] at haccept
    cases haccept
    obtain ⟨l, hl, -, hreads⟩ := hr.consumed hread
    simp only [List.append_nil] at hl
    exact ⟨a, hl ▸ hreads, hb⟩
  · rw [he] at haccept
    cases haccept

theorem of_map (hr : Delimited read) {f : α → β}
    (h : ReadsAt (do return f (← read)) offset bytes b) :
    ∃ a, ReadsAt read offset bytes a ∧ f a = b := by
  obtain ⟨a, hread, hpure⟩ := of_accept hr (fun a => .inl ⟨f a, rfl⟩) h
  cases congrFun hpure ⟨0, []⟩
  exact ⟨a, hread, rfl⟩

end ReadsAt

section
variable {offset : Nat} {bytes : Bytes}

/-! ## Numbers, texts and tags -/

theorem bytes_of_uint8 {x : UInt8} (h : ReadsAt uint8 offset bytes x) : bytes = [x] := by
  obtain ⟨taken, htake, rfl⟩ := h.of_map (.take 1)
  obtain ⟨hlength, rfl⟩ := htake.eq_of_take
  obtain ⟨x, rfl⟩ := List.length_eq_one_iff.mp hlength
  rfl

theorem bytes_of_uint16 {v : UInt16} (h : ReadsAt uint16 offset bytes v) : bytes = ofUInt16 v := by
  obtain ⟨taken, htake, rfl⟩ := h.of_map (.take 2)
  obtain ⟨hlength, rfl⟩ := htake.eq_of_take
  obtain ⟨x, y, rfl⟩ := List.length_eq_two.mp hlength
  have hx := x.toNat_lt
  have hy := y.toNat_lt
  simp [ofUInt16, fromDigits, ← UInt8.toNat_inj]
  omega

theorem bytes_of_uint32 {v : UInt32} (h : ReadsAt uint32 offset bytes v) : bytes = ofUInt32 v := by
  obtain ⟨taken, htake, rfl⟩ := h.of_map (.take 4)
  obtain ⟨hlength, rfl⟩ := htake.eq_of_take
  obtain ⟨x, y, z, w, rfl⟩ : ∃ x y z w, taken = [x, y, z, w] := by
    match taken, hlength with
    | [x, y, z, w], _ => exact ⟨x, y, z, w, rfl⟩
  have hx := x.toNat_lt
  have hy := y.toNat_lt
  have hz := z.toNat_lt
  have hw := w.toNat_lt
  simp [ofUInt32, fromDigits, ← UInt8.toNat_inj]
  omega

theorem bytes_of_int32 {v : Int32} (h : ReadsAt int32 offset bytes v) :
    bytes = ofUInt32 v.toUInt32 := by
  obtain ⟨u, hu, rfl⟩ := h.of_map delimited.uint32
  rw [UInt32.toUInt32_toInt32, bytes_of_uint32 hu]

theorem bytes_of_single {x : Single} (h : ReadsAt single offset bytes x) :
    bytes = ofUInt32 x.bits := by
  obtain ⟨u, hu, rfl⟩ := h.of_map delimited.uint32
  exact bytes_of_uint32 hu

theorem toUTF8_of_fromUTF8? {bytes : ByteArray} {s : String}
    (h : String.fromUTF8? bytes = some s) : s.toUTF8 = bytes := by
  unfold String.fromUTF8? at h
  split at h
  · cases h
    rfl
  · cases h

theorem bytes_of_string {s : String} (h : ReadsAt string offset bytes s) :
    TextFits s ∧ bytes = ofString s := by
  obtain ⟨length, l, r, rfl, hl, hr⟩ := h.of_bind delimited.uint32 fun length => by
    refine Delimited.offset.bind fun start => (Delimited.take _).bind fun bytes => ?_
    split
    · exact .pure _
    · exact .throw nofun
  obtain ⟨taken, htake, hfound⟩ := hr.of_offset_bind.of_accept (.take _) fun a => by
    split
    · exact .inl ⟨_, rfl⟩
    · exact .inr ⟨_, rfl⟩
  split at hfound
  · next s' hs =>
    cases congrFun hfound ⟨0, []⟩
    obtain ⟨hlength, rfl⟩ := htake.eq_of_take
    have hbytes := toUTF8_of_fromUTF8? hs
    have hsize : s.toUTF8.size = length.toNat := by
      rw [hbytes, ← hlength]
      rfl
    refine ⟨?_, ?_⟩
    · have hlt := length.toNat_lt
      rw [← hsize] at hlt
      exact hlt
    · rw [bytes_of_uint32 hl, ofString, ofCount, hsize, hbytes, UInt32.ofNat_toNat]
  · cases congrFun hfound ⟨0, []⟩

theorem toNat_ofNat_byte (tag : UInt8) : (Char.ofNat tag.toNat).toNat = tag.toNat := by
  have hlt := tag.toNat_lt
  have hvalid : tag.toNat.isValidChar := .inl (by omega)
  rw [Char.ofNat, dif_pos hvalid]
  rfl

theorem bytes_of_fieldType {t : FieldType} (h : ReadsAt fieldType offset bytes t) :
    bytes = ofFieldType t := by
  obtain ⟨tag, htag, hfound⟩ := h.of_offset_bind.of_accept delimited.uint8 fun a => by
    split
    · exact .inl ⟨_, rfl⟩
    · exact .inr ⟨_, rfl⟩
  split at hfound
  · next t' ht =>
    cases congrFun hfound ⟨0, []⟩
    rw [ofFieldType, Descriptor.letter_of_ofLetter? ht, toNat_ofNat_byte, bytes_of_uint8 htag]
    exact congrArg (fun x => [x]) UInt8.ofNat_toNat.symm
  · cases congrFun hfound ⟨0, []⟩

theorem bytes_of_condition {c : Condition} (h : ReadsAt condition offset bytes c) :
    bytes = [c.byte] := by
  obtain ⟨tag, htag, hfound⟩ := h.of_offset_bind.of_accept delimited.uint8 fun a => by
    split
    · exact .inl ⟨_, rfl⟩
    · exact .inr ⟨_, rfl⟩
  split at hfound
  · next c' hc =>
    cases congrFun hfound ⟨0, []⟩
    have hbyte : c.byte = tag := by simpa using List.find?_some hc
    rw [hbyte, bytes_of_uint8 htag]
  · cases congrFun hfound ⟨0, []⟩

theorem bytes_of_descriptor {d : Descriptor} (h : ReadsAt descriptor offset bytes d) :
    TextFits d.text ∧ bytes = ofString d.text := by
  obtain ⟨s, hs, hparsed⟩ := h.of_accept delimited.string fun a => by
    split
    · exact .inl ⟨_, rfl⟩
    · exact .inr ⟨_, rfl⟩
  split at hparsed
  · next d' hd =>
    cases congrFun hparsed ⟨0, []⟩
    rw [Descriptor.text_of_parse hd]
    exact bytes_of_string hs
  · cases congrFun hparsed ⟨0, []⟩

/-! ## Instructions -/

theorem bytes_of_fieldRef {r : FieldRef} (h : ReadsAt fieldRef offset bytes r) :
    (∀ s ∈ [r.owner, r.name], TextFits s) ∧ bytes = ofFieldRef r := by
  obtain ⟨owner, l, r, rfl, hl, h⟩ := h.of_bind delimited.string fun _ =>
    delimited.string.bind fun _ => delimited.fieldType.map _
  obtain ⟨name, l', r, rfl, hl', h⟩ := h.of_bind delimited.string fun _ =>
    delimited.fieldType.map _
  obtain ⟨t, ht, rfl⟩ := h.of_map delimited.fieldType
  obtain ⟨howner, rfl⟩ := bytes_of_string hl
  obtain ⟨hname, rfl⟩ := bytes_of_string hl'
  obtain rfl := bytes_of_fieldType ht
  exact ⟨by simp [howner, hname], by rw [ofFieldRef, List.append_assoc]⟩

theorem bytes_of_routineRef {r : RoutineRef} (h : ReadsAt routineRef offset bytes r) :
    (∀ s ∈ [r.owner, r.name, r.descriptor.text], TextFits s) ∧ bytes = ofRoutineRef r := by
  obtain ⟨owner, l, r, rfl, hl, h⟩ := h.of_bind delimited.string fun _ =>
    delimited.string.bind fun _ => delimited.descriptor.map _
  obtain ⟨name, l', r, rfl, hl', h⟩ := h.of_bind delimited.string fun _ =>
    delimited.descriptor.map _
  obtain ⟨d, hd, rfl⟩ := h.of_map delimited.descriptor
  obtain ⟨howner, rfl⟩ := bytes_of_string hl
  obtain ⟨hname, rfl⟩ := bytes_of_string hl'
  obtain ⟨hdescriptor, rfl⟩ := bytes_of_descriptor hd
  exact ⟨by simp [howner, hname, hdescriptor], by rw [ofRoutineRef, List.append_assoc]⟩

theorem bytes_of_jump {jump : Condition → UInt32 → Instruction} {i : Instruction}
    (h : ReadsAt (do return jump (← condition) (← uint32)) offset bytes i) :
    ∃ c t, i = jump c t ∧ bytes = c.byte :: ofUInt32 t := by
  obtain ⟨c, l, r, rfl, hl, h⟩ := h.of_bind delimited.condition fun _ => delimited.uint32.map _
  obtain ⟨t, ht, rfl⟩ := h.of_map delimited.uint32
  rw [bytes_of_condition hl, bytes_of_uint32 ht]
  exact ⟨c, t, rfl, rfl⟩

theorem bytes_of_operands {opcode : Opcode} {i : Instruction}
    (h : ReadsAt (instructionOf opcode) offset bytes i) :
    i.opcode = opcode ∧ i.Fits ∧ bytes = operands i := by
  cases opcode with
  | iconst =>
    obtain ⟨v, hv, rfl⟩ := h.of_map delimited.int32
    exact ⟨rfl, nofun, bytes_of_int32 hv⟩
  | fconst =>
    obtain ⟨v, hv, rfl⟩ := h.of_map delimited.single
    exact ⟨rfl, nofun, bytes_of_single hv⟩
  | sconst =>
    obtain ⟨s, hs, rfl⟩ := h.of_map delimited.string
    obtain ⟨hfits, hbytes⟩ := bytes_of_string hs
    exact ⟨rfl, List.forall_mem_singleton.mpr hfits, hbytes⟩
  | iload | fload | istore | fstore =>
    obtain ⟨slot, hslot, rfl⟩ := h.of_map delimited.uint16
    exact ⟨rfl, nofun, bytes_of_uint16 hslot⟩
  | getStatic | putStatic =>
    obtain ⟨r, hr, rfl⟩ := h.of_map delimited.fieldRef
    exact ⟨rfl, bytes_of_fieldRef hr⟩
  | ifZero | ifCompare =>
    obtain ⟨c, t, rfl, hbytes⟩ := bytes_of_jump h
    exact ⟨rfl, nofun, hbytes⟩
  | goto =>
    obtain ⟨t, ht, rfl⟩ := h.of_map delimited.uint32
    exact ⟨rfl, nofun, bytes_of_uint32 ht⟩
  | invoke =>
    obtain ⟨r, hr, rfl⟩ := h.of_map delimited.routineRef
    exact ⟨rfl, bytes_of_routineRef hr⟩
  | print =>
    obtain ⟨t, ht, rfl⟩ := h.of_map delimited.fieldType
    exact ⟨rfl, nofun, bytes_of_fieldType ht⟩
  | printFixed =>
    obtain ⟨places, hplaces, rfl⟩ := h.of_map delimited.uint8
    exact ⟨rfl, nofun, bytes_of_uint8 hplaces⟩
  | _ =>
    obtain rfl := h.eq_nil fun h => by cases h; rfl
    cases h []
    exact ⟨rfl, nofun, rfl⟩

theorem bytes_of_instruction {i : Instruction} (h : ReadsAt instruction offset bytes i) :
    i.Fits ∧ bytes = ofInstruction i := by
  obtain ⟨byte, l, r, rfl, hl, h⟩ := h.of_offset_bind.of_bind delimited.uint8 fun byte => by
    split
    · exact delimited.instructionOf _
    · exact .throw nofun
  split at h
  · next opcode hopcode =>
    obtain ⟨rfl, hfits, rfl⟩ := bytes_of_operands h
    have hbyte : i.opcode.byte = byte := by simpa using List.find?_some hopcode
    rw [bytes_of_uint8 hl, ofInstruction, hbyte]
    exact ⟨hfits, rfl⟩
  · cases h []

/-! ## Sequences -/

theorem pieces_of_times {read : Reader α} (hr : Delimited read) {n : Nat} {as : List α}
    (h : ReadsAt (times read n) offset bytes as) :
    as.length = n ∧ ∃ pieces : List Bytes, bytes = pieces.flatten ∧
      List.Forall₂ (fun piece a => ∃ offset, ReadsAt read offset piece a) pieces as := by
  induction n generalizing offset bytes as with
  | zero =>
    obtain rfl := h.eq_nil fun h => by cases h; rfl
    cases h []
    exact ⟨rfl, [], rfl, .nil⟩
  | succ n ih =>
    obtain ⟨a, l, r, rfl, hl, h⟩ := h.of_bind hr fun _ => (delimited.times hr n).map _
    obtain ⟨as, has, rfl⟩ := h.of_map (delimited.times hr n)
    obtain ⟨hlength, pieces, rfl, hpieces⟩ := ih has
    exact ⟨congrArg (· + 1) hlength, l :: pieces, rfl, .cons ⟨_, hl⟩ hpieces⟩

theorem pieces_of_counted {read : Reader α} (hr : Delimited read) {as : List α}
    (h : ReadsAt (counted read) offset bytes as) :
    as.length < 2 ^ 32 ∧ ∃ pieces : List Bytes, bytes = ofCount as.length ++ pieces.flatten ∧
      List.Forall₂ (fun piece a => ∃ offset, ReadsAt read offset piece a) pieces as := by
  obtain ⟨n, l, r, rfl, hl, h⟩ := h.of_bind delimited.uint32 fun n => delimited.times hr n.toNat
  obtain ⟨hlength, pieces, rfl, hpieces⟩ := pieces_of_times hr h
  rw [hlength, ofCount, UInt32.ofNat_toNat, bytes_of_uint32 hl]
  exact ⟨n.toNat_lt, pieces, rfl, hpieces⟩

theorem flatten_eq_flatMap {S : Bytes → α → Prop} {fits : α → Prop} {write : α → Bytes}
    (hS : ∀ {piece a}, S piece a → fits a ∧ piece = write a) {pieces : List Bytes} {as : List α}
    (h : List.Forall₂ S pieces as) : (∀ a ∈ as, fits a) ∧ pieces.flatten = as.flatMap write := by
  induction h with
  | nil => exact ⟨nofun, rfl⟩
  | @cons piece a pieces as hp _ ih =>
    obtain ⟨hfits, rfl⟩ := hS hp
    obtain ⟨hall, hflatten⟩ := ih
    rw [List.flatten_cons, List.flatMap_cons, hflatten]
    exact ⟨List.forall_mem_cons.mpr ⟨hfits, hall⟩, rfl⟩

theorem bytes_of_routine {r : Routine} (h : ReadsAt routine offset bytes r) :
    r.Fits ∧ bytes = ofRoutine r := by
  have hcode := delimited.counted delimited.instruction
  obtain ⟨name, l, t, rfl, hname, h⟩ := h.of_bind delimited.string fun _ =>
    delimited.descriptor.bind fun _ => delimited.uint16.bind fun _ => hcode.map _
  obtain ⟨d, l', t, rfl, hd, h⟩ := h.of_bind delimited.descriptor fun _ =>
    delimited.uint16.bind fun _ => hcode.map _
  obtain ⟨maxLocals, l'', t, rfl, hmax, h⟩ := h.of_bind delimited.uint16 fun _ => hcode.map _
  obtain ⟨code, hcode, rfl⟩ := h.of_map hcode
  obtain ⟨hsize, pieces, rfl, hpieces⟩ := pieces_of_counted delimited.instruction hcode
  obtain ⟨hfits, hflatten⟩ := flatten_eq_flatMap (fun ⟨_, h⟩ => bytes_of_instruction h) hpieces
  obtain ⟨hnameFits, rfl⟩ := bytes_of_string hname
  obtain ⟨htextFits, rfl⟩ := bytes_of_descriptor hd
  obtain rfl := bytes_of_uint16 hmax
  rw [hflatten]
  exact ⟨⟨hnameFits, htextFits, hsize, hfits⟩, by simp [ofRoutine]⟩

end

end Codec
end PZero.Bytecode
