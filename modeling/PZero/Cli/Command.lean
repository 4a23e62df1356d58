/-! # Arguments of the command line

A command is followed by its input file and its options, in any order. An option's
value may follow behind an equals sign or as the next argument; short options may
share a dash. Nothing may be given twice, and behind a double dash everything is a
file name.
-/
namespace PZero.Cli

inductive Command
  | compile (input : String) (output moduleName : Option String) (printTree printModule : Bool)
  | run (input : String) (moduleName : Option String) (maxCallDepth : Option Nat)
  | exec (input : String) (maxCallDepth : Option Nat)
  /-- Asks for a description of the command line. -/
  | help
  | version
  deriving DecidableEq

/-- What an option takes. -/
inductive Takes
  | nothing
  | text
  | path
  | number
  deriving DecidableEq

structure Opt where
  name : String
  short : Option Char := none
  takes : Takes
  deriving DecidableEq

inductive Verb
  | compile
  | run
  | exec
  deriving DecidableEq

namespace Verb

def ofName? : String → Option Verb
  | "compile" => some compile
  | "run" => some run
  | "exec" => some exec
  | _ => none

def verbose : Opt := { name := "verbose", short := some 'v', takes := .nothing }

def moduleName : Opt := { name := "module-name", takes := .text }

def maxCallDepth : Opt := { name := "max-call-depth", takes := .number }

/-- The options of a command. -/
def options : Verb → List Opt
  | compile =>
    [{ name := "output", short := some 'o', takes := .path }, moduleName,
      { name := "print-tst", takes := .nothing }, { name := "print-module", takes := .nothing },
      verbose]
  | run => [moduleName, maxCallDepth, verbose]
  | exec => [maxCallDepth, verbose]

end Verb

/-- A natural number of 64 bits, with an optional plus. -/
def number? (s : String) : Option Nat :=
  let ds := match s.toList with
    | '+' :: ds => ds
    | ds => ds
  let n := ds.foldl (fun n c => 10 * n + (c.toNat - '0'.toNat)) 0
  if !ds.isEmpty && ds.all Char.isDigit && n < UInt64.size then some n else none

/-- What was given so far. -/
structure Given where
  input : Option String := none
  options : List (String × String) := []

/-- Why parsing stops before the end. -/
inductive Stop
  | mistake
  | help
  | version

namespace Given

/-- A path must not be empty; there is one input. -/
def addInput (g : Given) (s : String) : Except Stop Given :=
  if g.input.isSome || s.isEmpty then .error .mistake else .ok { g with input := some s }

def add (g : Given) (o : Opt) (value : String) : Except Stop Given :=
  let fits := match o.takes with
    | .nothing | .text => true
    | .path => !value.isEmpty
    | .number => (number? value).isSome
  if (g.options.lookup o.name).isSome || !fits then .error .mistake
  else .ok { g with options := (o.name, value) :: g.options }

def text? (g : Given) (name : String) : Option String := g.options.lookup name

def number? (g : Given) (name : String) : Option Nat := (g.text? name).bind Cli.number?

def flag (g : Given) (name : String) : Bool := (g.text? name).isSome

end Given

/-- Whether an argument begins an option rather than being a value. -/
def isOption (s : String) : Bool := s.startsWith "-" && s != "-"

/-- The options behind one dash. An option with a value takes the remaining characters, or else is
left waiting for the next argument. -/
def parseShort (opts : List Opt) (g : Given) : List Char → Except Stop (Given × Option Opt)
  | [] => .ok (g, none)
  | c :: rest =>
    if c == 'h' then .error .help
    else match opts.find? (·.short == some c) with
      | none => .error .mistake
      | some o =>
        if o.takes == .nothing then do parseShort opts (← g.add o "") rest
        else match rest with
          | [] => .ok (g, some o)
          | '=' :: value => do return (← g.add o (String.ofList value), none)
          | value => do return (← g.add o (String.ofList value), none)

/-- An option behind two dashes. -/
def parseLong (opts : List Opt) (g : Given) (s : List Char) : Except Stop (Given × Option Opt) :=
  let name := String.ofList (s.takeWhile (· != '='))
  let value := match s.dropWhile (· != '=') with
    | _ :: v => some (String.ofList v)
    | [] => none
  match opts.find? (·.name == name), value with
  | none, none => .error (if name == "help" then .help else .mistake)
  | none, some _ => .error .mistake
  | some o, none => if o.takes == .nothing then do return (← g.add o "", none) else .ok (g, some o)
  | some o, some v => if o.takes == .nothing then .error .mistake else do return (← g.add o v, none)

/-- Goes through the arguments of a command; `waiting` is an option that needs its value. -/
def parseArguments (opts : List Opt) (g : Given) (waiting : Option Opt) :
    List String → Except Stop Given
  | [] => if waiting.isSome then .error .mistake else .ok g
  | s :: rest =>
    match waiting with
    | some o =>
      if isOption s then .error .mistake
      else do parseArguments opts (← g.add o s) none rest
    | none =>
      if s == "--" then rest.foldlM Given.addInput g
      else if isOption s then do
        let (g, waiting) ← match s.toList with
          | '-' :: '-' :: long => parseLong opts g long
          | _ :: short => parseShort opts g short
          | [] => .ok (g, none)
        parseArguments opts g waiting rest
      else do parseArguments opts (← g.addInput s) none rest

def Verb.command (v : Verb) (g : Given) (input : String) : Command :=
  match v with
  | .compile =>
    .compile input (g.text? "output") (g.text? "module-name") (g.flag "print-tst")
      (g.flag "print-module")
  | .run => .run input (g.text? "module-name") (g.number? "max-call-depth")
  | .exec => .exec input (g.number? "max-call-depth")

def Verb.parse (v : Verb) (arguments : List String) : Except Stop Command := do
  let g ← parseArguments v.options {} none arguments
  match g.input with
  | some input => return v.command g input
  | none => .error .mistake

/-- The characters behind a dash in front of the command. -/
def parseLeading (verbose : Bool) : List Char → Except Stop Bool
  | [] => .ok verbose
  | 'v' :: rest => if verbose then .error .mistake else parseLeading true rest
  | 'h' :: _ => .error .help
  | 'V' :: _ => .error .version
  | _ => .error .mistake

/-- Goes through the arguments up to the command. -/
def parseVerb (verbose : Bool) : List String → Except Stop Command
  | [] => .error .mistake
  | "--verbose" :: rest => if verbose then .error .mistake else parseVerb true rest
  | "--help" :: _ => .error .help
  | "--version" :: _ => .error .version
  | s :: rest =>
    if isOption s then
      match s.toList with
      | '-' :: '-' :: _ => .error .mistake
      | _ :: short => do parseVerb (← parseLeading verbose short) rest
      | [] => .error .mistake
    else if s == "help" then
      match rest with
      | [] => .error .help
      | [name] => .error (if name == "help" || (Verb.ofName? name).isSome then .help else .mistake)
      | _ => .error .mistake
    else match Verb.ofName? s with
      | some v => v.parse rest
      | none => .error .mistake

/-- The command that the arguments give; `none` when they give none. -/
def Command.ofArguments? (arguments : List String) : Option Command :=
  match parseVerb false arguments with
  | .ok c => some c
  | .error .help => some .help
  | .error .version => some .version
  | .error .mistake => none

end PZero.Cli
