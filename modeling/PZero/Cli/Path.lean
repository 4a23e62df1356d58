/-! # File names

The name of a file is the last part of its path that is neither empty nor a single
dot. Its stem ends at the last dot, except for a dot at the very beginning.
-/
namespace PZero.Cli

/-- The parts of a path up to its file name, last one first. -/
def parts (path : String) : List String :=
  (path.splitOn "/").reverse.dropWhile fun part => part == "" || part == "."

def fileName? (path : String) : Option String :=
  match parts path with
  | [] | ".." :: _ => none
  | name :: _ => some name

/-- What is left of a name without its extension. -/
def stem (name : String) : String :=
  let before := name.toList.reverse.dropWhile (· != '.') |>.drop 1 |>.reverse
  if before.isEmpty then name else String.ofList before

def fileStem? (path : String) : Option String := (fileName? path).map stem

/-- A name up to the dot in front of its extension, with that dot. -/
def cutExtension (name : String) : String :=
  let before := name.toList.reverse.dropWhile (· != '.') |>.reverse
  if before.length ≤ 1 then name else String.ofList before

/-- The path with another extension in place of the old one. What is left without the old one need
not be the name of a file; then nothing is added to it. -/
def withExtension (path extension : String) : String :=
  match parts path with
  | [] => path
  | name :: directories =>
    let cut := cutExtension name
    let name := match fileStem? cut with
      | some s => s ++ "." ++ extension
      | none => cut
    "/".intercalate (name :: directories).reverse

end PZero.Cli
