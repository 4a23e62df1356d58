import PZero.Analysis.Binding
import PZero.Analysis.Literal

/-! # Analysis of expressions

Each expression has a typed form and a list of diagnostics, which are computed
side by side. A mistake never stops the analysis: the typed form then has the error
type, or leaves out what could not be analysed.
-/
namespace PZero.Analysis
open Surface (Identifier)

/-- The type of a name used as a value. -/
def nameType (env : Env) (name : String) : Ty :=
  match env.get? name with
  | some (.const t) | some (.var t) => t
  | some (.function ..) | none => .error

def diagnoseName (env : Env) (i : Identifier) : List Diagnostic :=
  match env.get? i.name with
  | some (.const _) | some (.var _) => []
  | some (.function ..) => [.referenceFunction i.name i.span]
  | none => [.unknownIdentifier i.name i.span]

/-- The type of an operator's result. -/
def unaryType (op : UnOp) (operand : Ty) : Ty :=
  match op with
  | .not => .bool
  | .minus | .plus => operand

mutual

/-- The typed form of an expression. -/
def typedExpr (env : Env) : Surface.Expr → Typed.Expr
  | .ternary guard yes no =>
    .ternary (typedExpr env guard) (typedExpr env yes) (typedExpr env no)
  | .binary op left right => .binary op (typedExpr env left) (typedExpr env right)
  | .unary s .minus (.literal (.int text span)) =>
    .literal (typedLiteral (.int ("-" ++ text) (s + span)))
  | .unary _ op operand =>
    let typed := typedExpr env operand
    .unary (unaryType op typed.ty) op typed
  | .call callee arguments _ =>
    match env.get? callee.name with
    | some (.const _) | some (.var _) => .call .error callee.name []
    | some (.function _ result) =>
      .call (result.getD .error) callee.name (typedExprs env arguments)
    | none => .name .error callee.name
  | .name identifier => .name (nameType env identifier.name) identifier.name
  | .paren _ inner => typedExpr env inner
  | .literal v => .literal (typedLiteral v)

def typedExprs (env : Env) : List Surface.Expr → List Typed.Expr
  | [] => []
  | e :: rest => typedExpr env e :: typedExprs env rest

end

/-- Whether an operator takes an operand of a type; the error type passes everywhere. -/
def acceptsOperand (op : BinOp) (t : Ty) : Bool :=
  t.isError || if op.isBoolean then t == .bool else op.isEquality || t.isNumeric

/-- Operands that are not accepted are not compared with each other. -/
def diagnoseOperands (op : BinOp) (left right : Span × Ty) : List Diagnostic :=
  let leftOk := acceptsOperand op left.2
  let rightOk := acceptsOperand op right.2
  (if leftOk then [] else [.binaryOperandType op left.2 left.1]) ++
  (if rightOk then [] else [.binaryOperandType op right.2 right.1]) ++
  if leftOk && rightOk && !left.2.compatible right.2 then
    [.operandsIncompatible op left.1 left.2 right.1 right.2]
  else []

def diagnoseOperand (op : UnOp) (operand : Span × Ty) : List Diagnostic :=
  let accepted := match op with
    | .not => operand.2 == .bool
    | .minus | .plus => operand.2.isNumeric
  if accepted || operand.2.isError then [] else [.unaryOperandType op operand.2 operand.1]

/-- Arguments of the wrong types. -/
def diagnoseArgumentTypes : List Ty → List (Span × Ty) → List Diagnostic
  | p :: parameters, a :: arguments =>
    (if a.2.compatible p then [] else [.argumentType a.2 p a.1]) ++
      diagnoseArgumentTypes parameters arguments
  | _, _ => []

/-- Arguments against parameters; types are only compared when the numbers agree. -/
def diagnoseArguments (callee : Identifier) (parameters : List Ty) (arguments : List (Span × Ty)) :
    List Diagnostic :=
  if arguments.length = parameters.length then diagnoseArgumentTypes parameters arguments
  else [.argumentCount arguments.length parameters.length callee.span]

/-- Where an expression stands and what type its typed form has. -/
def placed (env : Env) (e : Surface.Expr) : Span × Ty := (e.span, (typedExpr env e).ty)

mutual

/-- What is wrong in an expression. -/
def diagnoseExpr (env : Env) : Surface.Expr → List Diagnostic
  | .ternary guard yes no =>
    diagnoseExpr env guard ++ diagnoseExpr env yes ++ diagnoseExpr env no ++
    (if (typedExpr env guard).ty.compatible .bool then []
      else [.ternaryGuardNotBool guard.span (Surface.Expr.ternary guard yes no).span]) ++
    if (typedExpr env yes).ty.compatible (typedExpr env no).ty then []
      else [.branchesIncompatible yes.span no.span]
  | .binary op left right =>
    diagnoseExpr env left ++ diagnoseExpr env right ++
      diagnoseOperands op (placed env left) (placed env right)
  | .unary s .minus (.literal (.int text span)) =>
    diagnoseLiteral (.int ("-" ++ text) (s + span))
  | .unary _ op operand => diagnoseExpr env operand ++ diagnoseOperand op (placed env operand)
  | .call callee arguments _ =>
    match env.get? callee.name with
    | some (.const _) => [.callConstant callee.name callee.span]
    | some (.var _) => [.callVariable callee.name callee.span]
    | some (.function parameters result) =>
      diagnoseExprs env arguments ++
      diagnoseArguments callee parameters (arguments.map (placed env)) ++
      if result.isSome then [] else [.unitFunctionAsValue callee.name callee.span]
    | none => [.unknownIdentifier callee.name callee.span]
  | .name identifier => diagnoseName env identifier
  | .paren _ inner => diagnoseExpr env inner
  | .literal v => diagnoseLiteral v

def diagnoseExprs (env : Env) : List Surface.Expr → List Diagnostic
  | [] => []
  | e :: rest => diagnoseExpr env e ++ diagnoseExprs env rest

end

end PZero.Analysis
