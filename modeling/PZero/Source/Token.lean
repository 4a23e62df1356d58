import PZero.Source.Span

/-! # Tokens

Tokens come from a scanner outside this library. Here they only appear in
messages, which quote the token found and the kinds that were expected.
-/
namespace PZero

inductive TokenKind
  | boolWord | constWord | elseWord | falseWord | floatWord | funWord
  | ifWord | intWord | letWord | returnWord | trueWord | whileWord
  | bang | bangEqual | ampersandAmpersand | leftParen | rightParen | star
  | plus | comma | minus | slash | colon | semicolon
  | less | lessEqual | equal | equalEqual | greater | greaterEqual
  | question | leftBrace | pipePipe | rightBrace
  | identifier | floatLiteral | intLiteral | stringLiteral
  | endOfStream | invalid
  deriving DecidableEq, Inhabited

namespace TokenKind

/-- Each kind with its name in data files and its text in messages. -/
def table : List (TokenKind × String × String) :=
  [(boolWord, "Bool", "Bool"), (constWord, "Const", "const"), (elseWord, "Else", "else"),
    (falseWord, "False", "false"), (floatWord, "Float", "Float"), (funWord, "Fun", "fun"),
    (ifWord, "If", "if"), (intWord, "Int", "Int"), (letWord, "Let", "let"),
    (returnWord, "Return", "return"), (trueWord, "True", "true"), (whileWord, "While", "while"),
    (bang, "Bang", "!"), (bangEqual, "BangEqual", "!="),
    (ampersandAmpersand, "AmpersandAmpersand", "&&"), (leftParen, "LeftParen", "("),
    (rightParen, "RightParen", ")"), (star, "Star", "*"), (plus, "Plus", "+"),
    (comma, "Comma", ","), (minus, "Minus", "-"), (slash, "Slash", "/"), (colon, "Colon", ":"),
    (semicolon, "Semicolon", ";"), (less, "Less", "<"), (lessEqual, "LessEqual", "<="),
    (equal, "Equal", "="), (equalEqual, "EqualEqual", "=="), (greater, "Greater", ">"),
    (greaterEqual, "GreaterEqual", ">="), (question, "Question", "?"),
    (leftBrace, "LeftBrace", "\x7b"), (pipePipe, "PipePipe", "||"),
    (rightBrace, "RightBrace", "\x7d"), (identifier, "Identifier", "identifier"),
    (floatLiteral, "LiteralFloat", "float literal"), (intLiteral, "LiteralInt", "int literal"),
    (stringLiteral, "LiteralString", "string literal"),
    (endOfStream, "EndOfStream", "end of input"), (invalid, "Error", "invalid token")]

def entry (k : TokenKind) : String × String := (table.lookup k).getD ("", "")

def name (k : TokenKind) : String := k.entry.1

def text (k : TokenKind) : String := k.entry.2

def ofName? (s : String) : Option TokenKind :=
  (table.find? fun row => row.2.1 == s).map (·.1)

theorem entry_mem_table (k : TokenKind) : (k, k.entry) ∈ table := by
  cases k <;> decide

end TokenKind

structure Token where
  kind : TokenKind
  span : Span := {}
  lexeme : String
  deriving DecidableEq

/-- The end of input has no lexeme worth quoting. -/
def Token.text (t : Token) : String :=
  if t.kind = .endOfStream then t.kind.text else s!"'{t.lexeme}'"

end PZero
