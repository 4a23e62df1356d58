import PZero.Proofs.Codec.Exact

/-! # Accepted bytes and written bytes

Almost every byte of an accepted module is the one that is written for it. Of the
flags of a field only the lowest bit is read, and of a truth value only whether it is
zero. So there is one way to spell a module, up to these bytes, and the bytes that
are read as a given module are just the spellings of it.
-/
namespace PZero.Bytecode
namespace Codec

/-! ## Spellings -/

/-- What counts of a byte: all of it, the lowest bit of the flags of a field, or of a truth value
whether it is zero. -/
inductive Role
  | whole
  | flags
  | truth
  deriving DecidableEq

namespace Role

/-- The byte that is written where another one was read. -/
def normal : Role → UInt8 → UInt8
  | whole, x => x
  | flags, x => x &&& 1
  | truth, x => if x = 0 then 0 else 1

/-- Both bytes are read as the same. -/
def Agrees : Role → UInt8 → UInt8 → Prop
  | whole, x, y => x = y
  | flags, x, y => x &&& 1 = y &&& 1
  | truth, x, y => x = 0 ↔ y = 0

theorem agrees_iff {r : Role} {x y : UInt8} : r.Agrees x y ↔ r.normal x = r.normal y := by
  cases r with
  | whole | flags => exact Iff.rfl
  | truth => by_cases hx : x = 0 <;> by_cases hy : y = 0 <;> simp [Agrees, normal, hx, hy]

end Role

def allWhole (bytes : Bytes) : List Role := bytes.map fun _ => .whole

@[simp] theorem length_allWhole (bytes : Bytes) : (allWhole bytes).length = bytes.length :=
  List.length_map _

/-- The bytes are written as `normal` when they have been read. -/
def Spells (roles : List Role) (bytes normal : Bytes) : Prop :=
  bytes.length = roles.length ∧ List.zipWith Role.normal roles bytes = normal

namespace Spells
variable {roles roles' : List Role} {bytes bytes' normal normal' : Bytes}

theorem length_eq (h : Spells roles bytes normal) : normal.length = bytes.length := by
  rw [← h.2, List.length_zipWith, h.1, Nat.min_self]

theorem append (h : Spells roles bytes normal) (h' : Spells roles' bytes' normal') :
    Spells (roles ++ roles') (bytes ++ bytes') (normal ++ normal') := by
  refine ⟨?_, ?_⟩
  · rw [List.length_append, List.length_append, h.1, h'.1]
  · rw [List.zipWith_append h.1.symm, h.2, h'.2]

theorem split (hlength : roles.length = normal.length)
    (h : Spells (roles ++ roles') bytes (normal ++ normal')) :
    ∃ l r, bytes = l ++ r ∧ Spells roles l normal ∧ Spells roles' r normal' := by
  obtain ⟨hsize, hzip⟩ := h
  rw [List.length_append] at hsize
  have hl : (bytes.take roles.length).length = roles.length := by
    rw [List.length_take]
    omega
  have hr : (bytes.drop roles.length).length = roles'.length := by
    rw [List.length_drop]
    omega
  rw [← List.take_append_drop roles.length bytes, List.zipWith_append hl.symm] at hzip
  obtain ⟨hleft, hright⟩ := List.append_inj hzip (by rw [List.length_zipWith, hl]; omega)
  exact ⟨_, _, (List.take_append_drop roles.length bytes).symm, ⟨hl, hleft⟩, hr, hright⟩

theorem getElem? (h : Spells roles bytes normal) {i : Nat} {x : UInt8}
    (hx : bytes[i]? = some x) : normal[i]? = some ((roles.getD i .whole).normal x) := by
  obtain ⟨hi, -⟩ := List.getElem?_eq_some_iff.mp hx
  rw [h.1] at hi
  rw [← h.2, List.getElem?_zipWith, hx, List.getD_eq_getElem?_getD, List.getElem?_eq_getElem hi]
  rfl

/-- Other bytes spell the same when they have what counts of each byte. -/
theorem iff_agrees (h : Spells roles bytes normal) : Spells roles bytes' normal ↔
    bytes.length = bytes'.length ∧ ∀ i x y, bytes[i]? = some x → bytes'[i]? = some y →
      (roles.getD i .whole).Agrees x y := by
  constructor
  · intro h'
    refine ⟨h.1.trans h'.1.symm, fun i x y hx hy => ?_⟩
    have hnormal := (h.getElem? hx).symm.trans (h'.getElem? hy)
    exact Role.agrees_iff.mpr (Option.some.inj hnormal)
  · rintro ⟨hlength, hagrees⟩
    have h' : Spells roles bytes' (List.zipWith Role.normal roles bytes') :=
      ⟨hlength.symm.trans h.1, rfl⟩
    refine ⟨h'.1, List.ext_getElem? fun i => ?_⟩
    by_cases hi : i < bytes.length
    · have hx := List.getElem?_eq_getElem hi
      have hy := List.getElem?_eq_getElem (hlength ▸ hi)
      rw [h.getElem? hx, h'.getElem? hy, Role.agrees_iff.mp (hagrees i _ _ hx hy)]
    · rw [List.getElem?_eq_none, List.getElem?_eq_none]
      · rw [h.length_eq]
        omega
      · rw [h'.length_eq]
        omega

end Spells

theorem zipWith_allWhole {bytes normal : Bytes} (h : bytes.length = normal.length) :
    List.zipWith Role.normal (allWhole normal) bytes = bytes := by
  induction bytes generalizing normal with
  | nil => exact List.zipWith_nil_right
  | cons x bytes ih =>
    cases normal with
    | nil => cases h
    | cons y normal => exact congrArg (x :: ·) (ih (Nat.succ.inj h))

theorem spells_allWhole_iff {bytes normal : Bytes} :
    Spells (allWhole normal) bytes normal ↔ bytes = normal := by
  constructor
  · rintro ⟨hlength, hzip⟩
    rw [length_allWhole] at hlength
    rwa [zipWith_allWhole hlength] at hzip
  · rintro rfl
    exact ⟨(length_allWhole bytes).symm, zipWith_allWhole rfl⟩

theorem spells_singleton_iff {r : Role} {bytes : Bytes} {y : UInt8} :
    Spells [r] bytes [y] ↔ ∃ x, bytes = [x] ∧ r.normal x = y := by
  constructor
  · rintro ⟨hlength, hzip⟩
    obtain ⟨x, rfl⟩ := List.length_eq_one_iff.mp hlength
    exact ⟨x, rfl, List.singleton_inj.mp hzip⟩
  · rintro ⟨x, rfl, rfl⟩
    exact ⟨rfl, rfl⟩

theorem flags_normal {x : UInt8} {b : Bool} :
    Role.flags.normal x = (if b then 1 else 0) ↔ (x &&& 1 != 0) = b := by
  have hbit : x &&& 1 = 0 ∨ x &&& 1 = 1 := by
    simp only [← UInt8.toNat_inj, UInt8.toNat_and, UInt8.toNat_one, UInt8.toNat_zero,
      Nat.and_one_is_mod]
    omega
  rw [Role.normal]
  rcases hbit with h | h <;> cases b <;> simp [h]

theorem truth_normal {x : UInt8} {b : Bool} :
    Role.truth.normal x = (if b then 1 else 0) ↔ (x != 0) = b := by
  rw [Role.normal]
  by_cases h : x = 0 <;> cases b <;> simp [h]

end Codec

open Codec

def Constant.roles : Constant → List Role
  | .bool _ => allWhole (ofFieldType .bool) ++ [.truth]
  | c => allWhole (ofConstant c)

/-- Behind the name of a field are its flags. -/
def Field.roles (f : Field) : List Role :=
  allWhole (ofString f.name) ++ ([.flags] ++ (allWhole (ofFieldType f.type) ++ f.initial.roles))

/-- The bytes of a module in front of its fields. -/
def Module.header (m : Module) : Bytes :=
  magic ++ ofUInt16 version ++ ofString m.name ++ ofCount m.fields.length

/-- The bytes of a module behind its fields. -/
def Module.trailer (m : Module) : Bytes :=
  ofCount m.routines.length ++ m.routines.flatMap ofRoutine

/-- What counts of each byte of a module. -/
def Module.roles (m : Module) : List Role :=
  allWhole m.header ++ (m.fields.flatMap Field.roles ++ allWhole m.trailer)

/-- What counts of the byte at an index. -/
def Module.role (m : Module) (index : Nat) : Role := m.roles.getD index .whole

/-! ## Fields -/

namespace Codec
variable {offset : Nat} {bytes : Bytes}

theorem spelled_constant {c : Constant} (h : ReadsAt constant offset bytes c) :
    c.Fits ∧ Spells c.roles bytes (ofConstant c) := by
  rw [constant_eq] at h
  obtain ⟨t, l, r, rfl, hl, h⟩ := h.of_bind delimited.fieldType delimited.payload
  obtain rfl := bytes_of_fieldType hl
  cases t with
  | int =>
    obtain ⟨v, hv, rfl⟩ := h.of_map delimited.int32
    exact ⟨trivial, spells_allWhole_iff.mpr (by rw [bytes_of_int32 hv]; rfl)⟩
  | float =>
    obtain ⟨x, hx, rfl⟩ := h.of_map delimited.single
    exact ⟨trivial, spells_allWhole_iff.mpr (by rw [bytes_of_single hx]; rfl)⟩
  | bool =>
    obtain ⟨x, hx, rfl⟩ := h.of_map delimited.uint8
    refine ⟨trivial, (spells_allWhole_iff.mpr rfl).append (spells_singleton_iff.mpr ?_)⟩
    exact ⟨x, bytes_of_uint8 hx, truth_normal.mpr rfl⟩
  | string =>
    obtain ⟨s, hs, rfl⟩ := h.of_map delimited.string
    obtain ⟨hfits, rfl⟩ := bytes_of_string hs
    exact ⟨hfits, spells_allWhole_iff.mpr rfl⟩

theorem reads_of_spelled_constant {c : Constant} (hfits : c.Fits)
    (h : Spells c.roles bytes (ofConstant c)) : Reads constant bytes c := by
  cases c with
  | bool v =>
    obtain ⟨l, r, rfl, hl, hr⟩ := h.split rfl
    obtain rfl := spells_allWhole_iff.mp hl
    obtain ⟨x, rfl, hx⟩ := spells_singleton_iff.mp hr
    exact (reads_fieldType .bool).bind ((reads_uint8 x).accept (by rw [truth_normal.mp hx]))
  | int v | float v | string v => exact spells_allWhole_iff.mp h ▸ reads_constant hfits

theorem spelled_field {f : Field} (h : ReadsAt field offset bytes f) :
    f.Fits ∧ Spells f.roles bytes (ofField f) := by
  obtain ⟨name, l, r, rfl, hname, h⟩ := h.of_bind delimited.string fun _ =>
    delimited.uint8.bind fun _ => delimited.fieldType.bind fun _ => delimited.constant.map _
  obtain ⟨flags, l', r, rfl, hflags, h⟩ := h.of_bind delimited.uint8 fun _ =>
    delimited.fieldType.bind fun _ => delimited.constant.map _
  obtain ⟨t, l'', r, rfl, ht, h⟩ := h.of_bind delimited.fieldType fun _ => delimited.constant.map _
  obtain ⟨c, hc, rfl⟩ := h.of_map delimited.constant
  obtain ⟨hnameFits, rfl⟩ := bytes_of_string hname
  obtain ⟨hcFits, hinitial⟩ := spelled_constant hc
  refine ⟨⟨hnameFits, hcFits⟩, ?_⟩
  simp only [ofField, List.append_assoc]
  refine (spells_allWhole_iff.mpr rfl).append (.append ?_ (.append ?_ hinitial))
  · exact spells_singleton_iff.mpr ⟨flags, bytes_of_uint8 hflags, flags_normal.mpr rfl⟩
  · exact spells_allWhole_iff.mpr (bytes_of_fieldType ht)

theorem reads_of_spelled_field {f : Field} (hfits : f.Fits)
    (h : Spells f.roles bytes (ofField f)) : Reads field bytes f := by
  simp only [ofField, List.append_assoc] at h
  obtain ⟨l, r, rfl, hname, h⟩ := h.split (length_allWhole _)
  obtain ⟨l', r, rfl, hflags, h⟩ := h.split rfl
  obtain ⟨l'', r, rfl, ht, hinitial⟩ := h.split (length_allWhole _)
  obtain rfl := spells_allWhole_iff.mp hname
  obtain ⟨flags, rfl, hbit⟩ := spells_singleton_iff.mp hflags
  obtain rfl := spells_allWhole_iff.mp ht
  refine (reads_string hfits.1).bind ((reads_uint8 flags).bind ((reads_fieldType f.type).bind ?_))
  exact (reads_of_spelled_constant hfits.2 hinitial).accept (by rw [flags_normal.mp hbit])

theorem length_constantRoles (c : Constant) : c.roles.length = (ofConstant c).length := by
  cases c with
  | bool v => rfl
  | int v | float v | string v => exact length_allWhole _

theorem length_fieldRoles (f : Field) : f.roles.length = (ofField f).length := by
  simp only [Field.roles, ofField, List.length_append, length_allWhole, length_constantRoles,
    List.append_assoc]
  rfl

/-! ## Modules -/

theorem spelled_fields {pieces : List Bytes} {fs : List Field}
    (h : List.Forall₂ (fun piece f => ∃ offset, ReadsAt field offset piece f) pieces fs) :
    (∀ f ∈ fs, f.Fits) ∧ Spells (fs.flatMap Field.roles) pieces.flatten (fs.flatMap ofField) := by
  induction h with
  | nil => exact ⟨nofun, rfl, rfl⟩
  | cons hf _ ih =>
    obtain ⟨offset, hf⟩ := hf
    obtain ⟨hfits, hspells⟩ := spelled_field hf
    exact ⟨List.forall_mem_cons.mpr ⟨hfits, ih.1⟩, hspells.append ih.2⟩

theorem reads_of_spelled_fields {fs : List Field} (hfits : ∀ f ∈ fs, f.Fits)
    (h : Spells (fs.flatMap Field.roles) bytes (fs.flatMap ofField)) :
    Reads (times field fs.length) bytes fs := by
  induction fs generalizing bytes with
  | nil =>
    obtain rfl := List.length_eq_zero_iff.mp h.1
    exact .pure []
  | cons f fs ih =>
    obtain ⟨hf, hrest⟩ := List.forall_mem_cons.mp hfits
    obtain ⟨l, r, rfl, hl, hr⟩ := h.split (length_fieldRoles f)
    exact (reads_of_spelled_field hf hl).bind (.map (f :: ·) (ih hrest hr))

theorem length_flatMap_fieldRoles (fs : List Field) :
    (fs.flatMap Field.roles).length = (fs.flatMap ofField).length := by
  simp only [List.length_flatMap, length_fieldRoles]

/-- The bytes of the fields stand between bytes that are as they are written. -/
def Between (m : Module) (bytes middle : Bytes) : Prop :=
  bytes = m.header ++ (middle ++ m.trailer) ∧
    Spells (m.fields.flatMap Field.roles) middle (m.fields.flatMap ofField)

theorem spells_iff_between {m : Module} :
    Spells m.roles bytes m.encode ↔ ∃ middle, Between m bytes middle := by
  have hencode : m.encode = m.header ++ (m.fields.flatMap ofField ++ m.trailer) := by
    simp [Module.encode, Module.header, Module.trailer]
  rw [hencode, Module.roles]
  constructor
  · intro h
    obtain ⟨l, r, rfl, hl, h⟩ := h.split (length_allWhole _)
    obtain ⟨middle, r, rfl, hmiddle, hr⟩ := h.split (length_flatMap_fieldRoles m.fields)
    rw [spells_allWhole_iff.mp hl, spells_allWhole_iff.mp hr]
    exact ⟨middle, rfl, hmiddle⟩
  · rintro ⟨middle, rfl, hmiddle⟩
    exact (spells_allWhole_iff.mpr rfl).append (hmiddle.append (spells_allWhole_iff.mpr rfl))

theorem between_of_contents {m : Module} (h : ReadsAt contents offset bytes m) :
    m.Fits ∧ ∃ middle, Between m (magic ++ bytes) middle := by
  obtain ⟨v, l, r, rfl, hv, h⟩ := h.of_bind delimited.uint16 delimited.versioned
  split at h
  · cases h []
  · next hversion =>
    have hfields := delimited.counted delimited.field
    have hroutines := delimited.counted delimited.routine
    obtain rfl : v = version := by simpa using hversion
    obtain ⟨name, l, r, rfl, hname, h⟩ := h.of_bind delimited.string fun _ =>
      hfields.bind fun _ => hroutines.map _
    obtain ⟨fields, l', r, rfl, hfs, h⟩ := h.of_bind hfields fun _ => hroutines.map _
    obtain ⟨routines, hrs, rfl⟩ := h.of_map hroutines
    obtain ⟨hnameFits, rfl⟩ := bytes_of_string hname
    obtain ⟨hfsLength, pieces, rfl, hpieces⟩ := pieces_of_counted delimited.field hfs
    obtain ⟨hrsLength, pieces', rfl, hpieces'⟩ := pieces_of_counted delimited.routine hrs
    obtain ⟨hfsFits, hspells⟩ := spelled_fields hpieces
    obtain ⟨hrsFits, hflatten⟩ := flatten_eq_flatMap (fun ⟨_, h⟩ => bytes_of_routine h) hpieces'
    refine ⟨⟨hnameFits, hfsLength, hrsLength, hfsFits, hrsFits⟩, pieces.flatten, ?_, hspells⟩
    simp [Module.header, Module.trailer, bytes_of_uint16 hv, hflatten]

theorem reads_of_between {m : Module} (hfits : m.Fits) {middle : Bytes}
    (h : Between m bytes middle) : ∃ tail, bytes = magic ++ tail ∧ Reads contents tail m := by
  obtain ⟨hname, hfields, hroutines, hfield, hroutine⟩ := hfits
  have hcount : Reads (counted field) (ofCount m.fields.length ++ middle) m.fields := by
    refine (reads_uint32 (UInt32.ofNat m.fields.length)).bind ?_
    rw [UInt32.toNat_ofNat_of_lt' hfields]
    exact reads_of_spelled_fields hfield h.2
  have hcount' := reads_counted hroutines fun r hr => reads_routine (hroutine r hr)
  refine ⟨_, ?_, (reads_uint16 version).bind ((reads_string hname).bind (hcount.bind
    (.map (Module.mk m.name m.fields) hcount')))⟩
  rw [h.1]
  simp [Module.header, Module.trailer]

end Codec

/-- Bytes are read as a module just when they spell it. -/
theorem decode_eq_ok_iff_spells {bytes : Bytes} {m : Module} :
    Module.decode bytes = .ok m ↔ m.Fits ∧ Spells m.roles bytes m.encode := by
  rw [decode_eq_ok_iff, spells_iff_between]
  constructor
  · rintro ⟨tail, rfl, h⟩
    exact between_of_contents h
  · rintro ⟨hfits, middle, h⟩
    obtain ⟨tail, hbytes, hreads⟩ := reads_of_between hfits h
    exact ⟨tail, hbytes, hreads magic.length⟩

/-- The canonical form of accepted bytes. Written again they have the same length and are the same
at every index, but for the flags of fields, of which the lowest bit is kept, and truth values, of
which it is kept whether they are zero. Accepted bytes are read as the same module just when they
agree in what is kept. -/
theorem encode_canonical {b : Bytes} {m : Module} (h : Module.decode b = .ok m) :
    m.encode.length = b.length ∧
    (∀ i x, b[i]? = some x → m.encode[i]? = some ((m.role i).normal x)) ∧
    ∀ b' n, Module.decode b' = .ok n → (m = n ↔ b.length = b'.length ∧
      ∀ i x y, b[i]? = some x → b'[i]? = some y → (m.role i).Agrees x y) := by
  obtain ⟨hfits, hspells⟩ := decode_eq_ok_iff_spells.mp h
  refine ⟨hspells.length_eq, fun i x hx => hspells.getElem? hx, fun b' n hb' => ?_⟩
  refine Iff.trans ?_ hspells.iff_agrees
  constructor
  · rintro rfl
    exact (decode_eq_ok_iff_spells.mp hb').2
  · intro hspells'
    have hm := decode_eq_ok_iff_spells.mpr ⟨hfits, hspells'⟩
    exact Except.ok.inj (hm.symm.trans hb')

/-- A constant truth value whose flags and whose initial value are not as they are written. -/
def looseBytes : Bytes :=
  magic ++ [1, 0, 0, 0, 0, 0, 1, 0, 0, 0, 1, 0, 0, 0, 0x78, 0xff, 0x5a, 0x5a, 7, 0, 0, 0, 0]

def looseModule : Module := ⟨"", [⟨"x", true, .bool, .bool true⟩], []⟩

theorem encode_canonical_loose :
    Module.decode looseBytes = .ok looseModule ∧
      looseModule.role 20 = .flags ∧ looseModule.encode[20]? = some 1 ∧
      looseModule.role 23 = .truth ∧ looseModule.encode[23]? = some 1 ∧
      looseModule.encode.length = 28 ∧
      ∀ b n, Module.decode b = .ok n → (looseModule = n ↔ looseBytes.length = b.length ∧
        ∀ i x y, looseBytes[i]? = some x → b[i]? = some y → (looseModule.role i).Agrees x y) := by
  have haccepted : Module.decode looseBytes = .ok looseModule := by cbv
  obtain ⟨hlength, hbytes, hsame⟩ := encode_canonical haccepted
  have hflags : looseModule.role 20 = .flags := by decide
  have htruth : looseModule.role 23 = .truth := by decide
  have hflag := hbytes 20 0xff rfl
  have hvalue := hbytes 23 7 rfl
  rw [hflags] at hflag
  rw [htruth] at hvalue
  exact ⟨haccepted, hflags, hflag, htruth, hvalue, hlength, hsame⟩

end PZero.Bytecode
