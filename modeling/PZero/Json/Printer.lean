import PZero.Json.Basic

/-! # Writing data files

The layout has one member or item per line, indented by two blanks per level.
-/
namespace PZero.Json

/-- Control characters are written as escapes, everything else as it is. -/
def quoteChar (c : Char) : List Char :=
  match c with
  | '"' => ['\\', '"']
  | '\\' => ['\\', '\\']
  | '\x08' => ['\\', 'b']
  | '\x0c' => ['\\', 'f']
  | '\n' => ['\\', 'n']
  | '\r' => ['\\', 'r']
  | '\t' => ['\\', 't']
  | c =>
    if c.toNat < 0x20 then
      ['\\', 'u', '0', '0', (c.toNat / 16).digitChar, (c.toNat % 16).digitChar]
    else [c]

def quote (s : String) : String := String.ofList ('"' :: s.toList.flatMap quoteChar ++ ['"'])

def indent (level : Nat) : String := String.ofList (List.replicate (2 * level) ' ')

mutual

/-- The text of a value whose first line stands at the given level. -/
def prettyAt (level : Nat) : Json → String
  | null => "null"
  | bool b => if b then "true" else "false"
  | num literal => literal
  | str s => quote s
  | arr items =>
    if items.isEmpty then "[]"
    else "[\n" ++ prettyItems (level + 1) items ++ "\n" ++ indent level ++ "]"
  | obj members =>
    if members.isEmpty then "\x7b\x7d"
    else "\x7b\n" ++ prettyMembers (level + 1) members ++ "\n" ++ indent level ++ "\x7d"

def prettyItems (level : Nat) : List Json → String
  | [] => ""
  | [j] => indent level ++ prettyAt level j
  | j :: rest => indent level ++ prettyAt level j ++ ",\n" ++ prettyItems level rest

def prettyMembers (level : Nat) : List (String × Json) → String
  | [] => ""
  | [(k, j)] => indent level ++ quote k ++ ": " ++ prettyAt level j
  | (k, j) :: rest =>
    indent level ++ quote k ++ ": " ++ prettyAt level j ++ ",\n" ++ prettyMembers level rest

end

def pretty (j : Json) : String := prettyAt 0 j

end PZero.Json
