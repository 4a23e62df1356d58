/-! # Errors of machine code

What can be wrong with labels, with a descriptor and with the bytes of a module.
Offsets count bytes from the start of the module.
-/
namespace PZero.Bytecode

/-- A byte of a module that selects one of a few things. -/
inductive TagKind
  | fieldType
  | condition
  deriving DecidableEq

def TagKind.text : TagKind → String
  | fieldType => "field type"
  | condition => "condition"

inductive Error
  | unplacedLabel (label : UInt32)
  | labelPlacedTwice (label : UInt32)
  | badMagic
  | unsupportedVersion (version : UInt16)
  | unexpectedEnd (offset : Nat)
  | unknownOpcode (opcode : UInt8) (offset : Nat)
  | invalidTag (what : TagKind) (tag : UInt8) (offset : Nat)
  | invalidText (offset : Nat)
  | invalidDescriptor (descriptor : String)
  | trailingBytes (count : Nat)
  deriving DecidableEq

/-- Two hexadecimal digits. -/
def hexByte (b : UInt8) : String :=
  String.ofList [(b.toNat / 16).digitChar.toUpper, (b.toNat % 16).digitChar.toUpper]

def Error.message : Error → String
  | unplacedLabel label => s!"label L{label} is the target of a jump but was never placed"
  | labelPlacedTwice label => s!"label L{label} placed twice"
  | badMagic => "not a p0 module: bad magic"
  | unsupportedVersion version => s!"unsupported module version {version}"
  | unexpectedEnd offset => s!"unexpected end of module at byte {offset}"
  | unknownOpcode opcode offset => s!"unknown opcode 0x{hexByte opcode} at byte {offset}"
  | invalidTag what tag offset => s!"invalid {what.text} tag {tag} at byte {offset}"
  | invalidText offset => s!"invalid UTF-8 string at byte {offset}"
  | invalidDescriptor descriptor => s!"invalid method descriptor '{descriptor}'"
  | trailingBytes count => s!"trailing {count} byte(s) after module"

end PZero.Bytecode
