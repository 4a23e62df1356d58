import PZero.Analysis.Literal
import PZero.Bytecode.Descriptor
import PZero.Proofs.Lookup

/-! # Rules of the language

When a program is well-formed and what its typed form is, said by rules. A rule has
premises and a conclusion; there are no messages, no stand-ins for what is wrong and
no type for it: a value has one of the four storage types. What no rule derives is
not well-formed.
-/
namespace PZero.Rules
open Bytecode (FieldType)

/-- The storage type as a type of the language. -/
def typeOf : FieldType → Ty
  | .int => .int
  | .float => .float
  | .bool => .bool
  | .string => .string

/-- A type as it is written. -/
def written : Surface.TypeName → FieldType
  | .int => .int
  | .float => .float
  | .bool => .bool

def IsNumeric (t : FieldType) : Prop := t = .int ∨ t = .float

/-! ## Names -/

inductive Meaning
  | value (access : Access) (t : FieldType)
  | function (parameters : List FieldType) (result : Option FieldType)

/-- Parameters and local names are values; each open block has a frame of its own. -/
structure Context where
  globals : List (String × Meaning)
  locals : Scope (Access × FieldType) := {}

namespace Context

/-- The innermost binding of a name: a parameter or local name, or else a global one. -/
def get? (Γ : Context) (name : String) : Option Meaning :=
  match Γ.locals.get? name with
  | some (access, t) => some (.value access t)
  | none => Γ.globals.lookup name

def openScope (Γ : Context) : Context := { Γ with locals := Γ.locals.openScope }

def declare (Γ : Context) (name : String) (access : Access) (t : FieldType) : Context :=
  { Γ with locals := Γ.locals.insert name (access, t) }

/-- The parameters of a function are variables of the scope of its body. -/
def ofParameters (globals : List (String × Meaning)) (parameters : List (String × FieldType)) :
    Context :=
  parameters.foldl (fun Γ p => Γ.declare p.1 .readWrite p.2) { globals }

end Context

/-! ## Expressions -/

/-- The value of a literal; ints have 32 bits and floats are finite. -/
inductive LiteralValue : Surface.Literal → Typed.Literal → FieldType → Prop
  | bool {b span} : LiteralValue (.bool b span) (.bool b) .bool
  | int {text span v} : Analysis.intOfText? text = some v →
      LiteralValue (.int text span) (.int v) .int
  | float {text span x} : Single.ofText? text = some x → x.isInfinite = false →
      LiteralValue (.float text span) (.float x) .float
  | string {text span} : LiteralValue (.string text span) (.string (Analysis.unescape text)) .string

/-- An operator, the type of both its operands and the type of its result. -/
inductive BinaryType : BinOp → FieldType → FieldType → Prop
  | logical {op} : op.isBoolean → BinaryType op .bool .bool
  | arithmetic {op t} : op.isArithmetic → IsNumeric t → BinaryType op t t
  | relational {op t} : op.isRelational → IsNumeric t → BinaryType op t .bool
  | equality {op t} : op.isEquality → BinaryType op t .bool

/-- An operator and the type of its operand and its result. -/
inductive UnaryType : UnOp → FieldType → Prop
  | not : UnaryType .not .bool
  | minus {t} : IsNumeric t → UnaryType .minus t
  | plus {t} : IsNumeric t → UnaryType .plus t

/-- A minus in front of an int literal belongs to the literal. -/
def IsNegative : UnOp → Surface.Expr → Prop
  | .minus, .literal (.int ..) => True
  | _, _ => False

mutual

/-- In a context, an expression has a typed form and a type. -/
inductive HasType (Γ : Context) : Surface.Expr → Typed.Expr → FieldType → Prop
  | ternary {guard yes no guard' yes' no' t} :
      HasType Γ guard guard' .bool → HasType Γ yes yes' t → HasType Γ no no' t →
      HasType Γ (.ternary guard yes no) (.ternary guard' yes' no') t
  | binary {op left right left' right' t result} :
      HasType Γ left left' t → HasType Γ right right' t → BinaryType op t result →
      HasType Γ (.binary op left right) (.binary op left' right') result
  | negative {s text span v} : Analysis.intOfText? ("-" ++ text) = some v →
      HasType Γ (.unary s .minus (.literal (.int text span))) (.literal (.int v)) .int
  | unary {s op e e' t} : ¬ IsNegative op e → HasType Γ e e' t → UnaryType op t →
      HasType Γ (.unary s op e) (.unary (typeOf t) op e') t
  | call {callee arguments close arguments' parameters t} :
      Γ.get? callee.name = some (.function parameters (some t)) →
      HasTypes Γ arguments arguments' parameters →
      HasType Γ (.call callee arguments close) (.call (typeOf t) callee.name arguments') t
  | name {i access t} : Γ.get? i.name = some (.value access t) →
      HasType Γ (.name i) (.name (typeOf t) i.name) t
  | paren {s e e' t} : HasType Γ e e' t → HasType Γ (.paren s e) e' t
  | literal {v v' t} : LiteralValue v v' t → HasType Γ (.literal v) (.literal v') t

inductive HasTypes (Γ : Context) : List Surface.Expr → List Typed.Expr → List FieldType → Prop
  | nil : HasTypes Γ [] [] []
  | cons {e e' t es es' ts} : HasType Γ e e' t → HasTypes Γ es es' ts →
      HasTypes Γ (e :: es) (e' :: es') (t :: ts)

end

/-! ## Statements -/

mutual

/-- In a context, a statement has a typed form; the last context holds behind it. -/
inductive HasStmt : Context → Surface.Stmt → Typed.Stmt → Context → Prop
  | assign {Γ target e e' t} : Γ.get? target.name = some (.value .readWrite t) →
      HasType Γ e e' t → HasStmt Γ (.assign target e) (.assign target.name e') Γ
  | declare {Γ access i e e' t} : HasType Γ e e' t →
      HasStmt Γ (.declare access i e) (.declare access i.name e') (Γ.declare i.name access t)
  | ifThen {Γ Δ guard yes guard' yes'} : HasType Γ guard guard' .bool →
      HasStmt Γ.openScope yes yes' Δ → HasStmt Γ (.ifThen guard yes) (.ifThen guard' yes') Γ
  | ifElse {Γ Δ Θ guard yes no guard' yes' no'} : HasType Γ guard guard' .bool →
      HasStmt Γ.openScope yes yes' Δ → HasStmt Γ.openScope no no' Θ →
      HasStmt Γ (.ifElse guard yes no) (.ifElse guard' yes' no') Γ
  | whileDo {Γ Δ guard body guard' body'} : HasType Γ guard guard' .bool →
      HasStmt Γ.openScope body body' Δ → HasStmt Γ (.whileDo guard body) (.whileDo guard' body') Γ
  | block {Γ Δ body body'} : HasStmts Γ.openScope body body' Δ →
      HasStmt Γ (.block body) (.block body') Γ
  | call {Γ callee arguments arguments' parameters} :
      Γ.get? callee.name = some (.function parameters none) →
      HasTypes Γ arguments arguments' parameters →
      HasStmt Γ (.call callee arguments) (.call (.function callee.name) arguments') Γ
  | print {Γ callee arguments arguments' ts} : Γ.get? callee.name = none →
      callee.name = "print" → HasTypes Γ arguments arguments' ts →
      HasStmt Γ (.call callee arguments) (.call .print arguments') Γ
  | println {Γ callee arguments arguments' ts} : Γ.get? callee.name = none →
      callee.name = "println" → HasTypes Γ arguments arguments' ts →
      HasStmt Γ (.call callee arguments) (.call .println arguments') Γ
  | empty {Γ} : HasStmt Γ .empty .empty Γ

inductive HasStmts : Context → List Surface.Stmt → List Typed.Stmt → Context → Prop
  | nil {Γ} : HasStmts Γ [] [] Γ
  | cons {Γ Δ Θ s s' rest rest'} : HasStmt Γ s s' Δ → HasStmts Δ rest rest' Θ →
      HasStmts Γ (s :: rest) (s' :: rest') Θ

end

/-! ## Declarations and programs -/

/-- The initial value of a global name; an operator in front of a literal is carried out. -/
inductive InitialValue : Surface.LiteralExpr → Typed.Literal → Prop
  | value {v v' t} : LiteralValue v v' t → InitialValue (.value v) v'
  | plus {s v v' t} : LiteralValue v v' t → IsNumeric t → InitialValue (.unary s .plus v) v'
  | negativeInt {s text span n} : Analysis.intOfText? ("-" ++ text) = some n →
      InitialValue (.unary s .minus (.int text span)) (.int n)
  | negativeFloat {s text span x} : Single.ofText? ("-" ++ text) = some x →
      x.isInfinite = false → InitialValue (.unary s .minus (.float text span)) (.float x)
  | not {s b span} : InitialValue (.unary s .not (.bool b span)) (.bool !b)

def literalType : Surface.Literal → FieldType
  | .bool .. => .bool
  | .int .. => .int
  | .float .. => .float
  | .string .. => .string

def initialType : Surface.LiteralExpr → FieldType
  | .value v => literalType v
  | .unary _ .not _ => .bool
  | .unary _ _ v => literalType v

/-- What a declaration binds its name to. -/
def meaning : Surface.Decl → Meaning
  | .global access _ value => .value access (initialType value)
  | .function _ parameters _ result =>
    .function (parameters.map fun p => written p.2) (result.map fun r => written r.1)

def globals (declarations : List Surface.Decl) : List (String × Meaning) :=
  declarations.map fun d => (d.identifier.name, meaning d)

/-- The names that a list of statements itself declares. -/
def localNames (body : List Surface.Stmt) : List String :=
  body.filterMap fun
    | .declare _ i _ => some i.name
    | _ => none

/-- A result is the value of the last expression, which has the declared type. -/
inductive HasResult (Γ : Context) :
    Option (Surface.TypeName × Surface.Expr) → Option Typed.Expr → Prop
  | none : HasResult Γ none none
  | some {t e e'} : HasType Γ e e' (written t) → HasResult Γ (some (t, e)) (some e')

inductive HasDecl (globals : List (String × Meaning)) : Surface.Decl → Typed.Decl → Prop
  | global {access i e v} : InitialValue e v →
      HasDecl globals (.global access i e) (.global access i.name v)
  | function {i parameters body result body' result' Δ} :
      (parameters.map fun p => p.1.name).Nodup → (localNames body).Nodup →
      HasStmts (.ofParameters globals (parameters.map fun p => (p.1.name, written p.2)))
        body body' Δ →
      HasResult Δ result result' →
      HasDecl globals (.function i parameters body result)
        (.function ⟨i.name, parameters.map fun p => (p.1.name, typeOf (written p.2)), body', result'⟩)

/-- The statement of a program: that of its entry function, or a block of them. -/
inductive IsStatement : List Typed.Stmt → Typed.Stmt → Prop
  | one {s} : IsStatement [s] s
  | block {body} : body.length ≠ 1 → IsStatement body (.block body)

/-- A program is well-formed and has the given typed form. Its entry function is absent, and then a
function of that name does nothing, or it has neither parameters nor a result. -/
inductive WellFormed : Surface.Program → Typed.Program → Prop
  | withoutEntry {ds ds'} : (ds.map (·.identifier.name)).Nodup →
      (∀ d ∈ ds, d.identifier.name ≠ "main") →
      List.Forall₂ (HasDecl (("main", .function [] none) :: globals ds)) ds ds' →
      WellFormed ⟨ds⟩ ⟨ds', .empty⟩
  | withEntry {before after ds' i body body' s Δ} : i.name = "main" →
      ((before ++ .function i [] body none :: after).map (·.identifier.name)).Nodup →
      HasStmts { globals := globals (before ++ .function i [] body none :: after) } body body' Δ →
      IsStatement body' s →
      List.Forall₂ (HasDecl (globals (before ++ .function i [] body none :: after)))
        (before ++ after) ds' →
      WellFormed ⟨before ++ .function i [] body none :: after⟩ ⟨ds', s⟩

end PZero.Rules
