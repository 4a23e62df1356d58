import PZero.Json.Basic
import PZero.Json.Number

/-! # Lexemes of data files

A text is cut into punctuation, words, numerals and strings in one pass over its
characters. A string may hold halves of surrogate pairs; whether that is tolerated
depends on where it stands and is decided later.
-/
namespace PZero.Json

inductive Lexeme
  | openArray | closeArray | openObject | closeObject | comma | colon
  | scalar (j : Json)
  /-- A numeral too large for a double. -/
  | hugeNumber
  /-- A string; `none` when an escape in it stands for half of a surrogate pair. -/
  | str (s : Option String)

namespace Lexeme

def punctuation? : Char → Option Lexeme
  | '[' => some openArray
  | ']' => some closeArray
  | '\x7b' => some openObject
  | '\x7d' => some closeObject
  | ',' => some comma
  | ':' => some colon
  | _ => none

/-- What a run of characters outside strings means: a word or a numeral. -/
def bare? (cs : List Char) : Option Lexeme :=
  if cs == "null".toList then some (scalar .null)
  else if cs == "true".toList then some (scalar (.bool true))
  else if cs == "false".toList then some (scalar (.bool false))
  else (Numeral.ofChars? cs).map fun n =>
    if n.double?.isSome then scalar (.num (String.ofList cs)) else hugeNumber

end Lexeme

/-- The characters of a string so far, last one first; a surrogate that waits for its partner. -/
structure Draft where
  done : List Char := []
  broken : Bool := false
  high : Option Nat := none

namespace Draft

/-- A waiting surrogate that gets no partner spoils the string. -/
def settle (p : Draft) : Draft :=
  match p.high with
  | none => p
  | some _ => { p with broken := true, high := none }

def push (p : Draft) (c : Char) : Draft :=
  let p := p.settle
  { p with done := c :: p.done }

/-- Takes in the code unit of a numeric escape. -/
def pushUnit (p : Draft) (u : Nat) : Draft :=
  if 0xD800 ≤ u && u < 0xDC00 then { p.settle with high := some u }
  else if 0xDC00 ≤ u && u < 0xE000 then
    match p.high with
    | some h =>
      { p with
        done := Char.ofNat (0x10000 + (h - 0xD800) * 0x400 + (u - 0xDC00)) :: p.done, high := none }
    | none => { p with broken := true }
  else p.push (Char.ofNat u)

def finish (p : Draft) : Option String :=
  let p := p.settle
  if p.broken then none else some (String.ofList p.done.reverse)

end Draft

/-- Where the lexer stands between two characters. -/
inductive Mode
  | blank
  | bare (done : List Char)
  | quoted (d : Draft)
  | escape (d : Draft)
  | hex (d : Draft) (unit count : Nat)

def isBlank (c : Char) : Bool := c == ' ' || c == '\t' || c == '\n' || c == '\r'

def hexValue? (c : Char) : Option Nat :=
  if c.isDigit then some (c.toNat - '0'.toNat)
  else if 'a' ≤ c && c ≤ 'f' then some (c.toNat - 'a'.toNat + 10)
  else if 'A' ≤ c && c ≤ 'F' then some (c.toNat - 'A'.toNat + 10)
  else none

def escaped? : Char → Option Char
  | '"' => some '"'
  | '\\' => some '\\'
  | '/' => some '/'
  | 'b' => some '\x08'
  | 'f' => some '\x0c'
  | 'n' => some '\n'
  | 'r' => some '\r'
  | 't' => some '\t'
  | _ => none

/-- Whether a character goes on with a word or a numeral. -/
def isBare (c : Char) : Bool := !(isBlank c || c == '"' || (Lexeme.punctuation? c).isSome)

/-- What a character begins; the finished lexemes stand last one first. -/
def begin (done : List Lexeme) (c : Char) : Mode × List Lexeme :=
  if isBlank c then (.blank, done)
  else if c == '"' then (.quoted {}, done)
  else match Lexeme.punctuation? c with
    | some l => (.blank, l :: done)
    | none => (.bare [c], done)

/-- Takes in one character. -/
def lexStep : Mode × List Lexeme → Char → Option (Mode × List Lexeme)
  | (.blank, done), c => some (begin done c)
  | (.bare cs, done), c =>
    if isBare c then some (.bare (c :: cs), done)
    else (Lexeme.bare? cs.reverse).map fun l => begin (l :: done) c
  | (.quoted d, done), c =>
    if c == '"' then some (.blank, .str d.finish :: done)
    else if c == '\\' then some (.escape d, done)
    else if c.toNat < 0x20 then none
    else some (.quoted (d.push c), done)
  | (.escape d, done), c =>
    if c == 'u' then some (.hex d 0 0, done)
    else (escaped? c).map fun e => (.quoted (d.push e), done)
  | (.hex d unit count, done), c =>
    (hexValue? c).map fun v =>
      if count == 3 then (.quoted (d.pushUnit (16 * unit + v)), done)
      else (.hex d (16 * unit + v) (count + 1), done)

/-- Cuts a text into lexemes. -/
def lexemes? (cs : List Char) : Option (List Lexeme) :=
  match cs.foldlM lexStep (.blank, []) with
  | some (.blank, done) => some done.reverse
  | some (.bare cs, done) => (Lexeme.bare? cs.reverse).map fun l => (l :: done).reverse
  | _ => none

end PZero.Json
