import PZero.Analysis.Expr
import PZero.Proofs.Checker.Rules

/-! # Expressions are checked by the rules

The checker and the rules look names up in tables of different make, which have to
agree. Then an expression has no diagnostics just when the rules derive it, and its
typed form is the one that the checker gives it.
-/
namespace PZero.Rules
open Analysis Bytecode

/-! ## Types -/

theorem compatible_typeOf (t u : FieldType) : (typeOf t).compatible (typeOf u) = decide (t = u) := by
  cases t <;> cases u <;> rfl

theorem typeOf_written (t : Surface.TypeName) : typeOf (written t) = t.ty := by
  cases t <;> rfl

theorem typeOf_literalType (v : Surface.Literal) : typeOf (literalType v) = v.ty := by
  cases v <;> rfl

/-! ## Names -/

def Meaning.binding : Meaning → Binding
  | value access t => .ofAccess access (typeOf t)
  | function parameters result => .function (parameters.map typeOf) (result.map typeOf)

/-- Both tables give every name the same meaning. -/
def Agrees (env : Env) (Γ : Context) : Prop :=
  ∀ name, env.get? name = (Γ.get? name).map Meaning.binding

namespace Context

@[simp] theorem get?_openScope (Γ : Context) (name : String) :
    Γ.openScope.get? name = Γ.get? name := by
  simp [get?, openScope]

theorem get?_declare (Γ : Context) (name other : String) (access : Access) (t : FieldType) :
    (Γ.declare name access t).get? other =
      if other = name then some (.value access t) else Γ.get? other := by
  by_cases h : other = name <;> simp [get?, declare, Scope.get?_insert, h]

end Context

namespace Agrees
variable {env : Env} {Γ : Context}

theorem openScope (h : Agrees env Γ) : Agrees env.openScope Γ.openScope := by
  intro name
  rw [Scope.get?_openScope, Context.get?_openScope, h]

theorem declare (h : Agrees env Γ) (name : String) (access : Access) (t : FieldType) :
    Agrees (env.insert name (.ofAccess access (typeOf t))) (Γ.declare name access t) := by
  intro other
  rw [Scope.get?_insert, Context.get?_declare]
  split
  · rfl
  · exact h other

theorem get?_value (h : Agrees env Γ) {name : String} {access : Access} {t : FieldType}
    (hn : Γ.get? name = some (.value access t)) :
    env.get? name = some (.ofAccess access (typeOf t)) := by
  rw [h, hn]
  rfl

theorem get?_function (h : Agrees env Γ) {name : String} {parameters : List FieldType}
    {result : Option FieldType} (hn : Γ.get? name = some (.function parameters result)) :
    env.get? name = some (.function (parameters.map typeOf) (result.map typeOf)) := by
  rw [h, hn]
  rfl

theorem get?_none (h : Agrees env Γ) {name : String} (hn : Γ.get? name = none) :
    env.get? name = none := by
  rw [h, hn]
  rfl

end Agrees

/-! ## Literals -/

theorem literalValue_iff {v : Surface.Literal} {v' : Typed.Literal} {t : FieldType} :
    LiteralValue v v' t ↔ diagnoseLiteral v = [] ∧ typedLiteral v = v' ∧ literalType v = t := by
  constructor
  · intro h
    cases h with
    | bool => exact ⟨rfl, rfl, rfl⟩
    | int h => simp [diagnoseLiteral, typedLiteral, literalType, h]
    | float h hx => simp [diagnoseLiteral, typedLiteral, literalType, h, hx]
    | string => exact ⟨rfl, rfl, rfl⟩
  · rintro ⟨hd, rfl, rfl⟩
    cases v with
    | bool b span => exact .bool
    | int text span =>
      cases h : intOfText? text with
      | none => simp [diagnoseLiteral, h] at hd
      | some n =>
        simp only [typedLiteral, h, Option.getD_some]
        exact .int h
    | float text span =>
      cases h : Single.ofText? text with
      | none => simp [diagnoseLiteral, h] at hd
      | some x =>
        simp only [typedLiteral, h, Option.getD_some]
        refine .float h ?_
        simpa [diagnoseLiteral, h] using hd
    | string text span => exact .string

theorem typedLiteral_ty (v : Surface.Literal) : (typedLiteral v).ty = typeOf (literalType v) := by
  cases v <;> rfl

/-! ## Operators -/

theorem isNumeric_typeOf {t : FieldType} : (typeOf t).isNumeric = true ↔ IsNumeric t := by
  cases t <;> simp [typeOf, Ty.isNumeric, IsNumeric]

theorem isError_typeOf (t : FieldType) : (typeOf t).isError = false := by
  cases t <;> rfl

theorem typeOf_eq_bool {t : FieldType} : (typeOf t == .bool) = true ↔ t = .bool := by
  cases t <;> simp [typeOf]

/-- The operators that are neither logical nor comparisons for equality calculate or order. -/
theorem isArithmetic_or_isRelational {op : BinOp} : op.isBoolean = false →
    op.isEquality = false → op.isArithmetic = true ∨ op.isRelational = true := by
  cases op <;> decide

theorem isBoolean_of_isArithmetic {op : BinOp} :
    op.isArithmetic = true → op.isBoolean = false := by
  cases op <;> decide

theorem isArithmetic_of_isBoolean {op : BinOp} :
    op.isBoolean = true → op.isArithmetic = false := by
  cases op <;> decide

theorem not_boolean_arithmetic_of_isRelational {op : BinOp} :
    op.isRelational = true → op.isBoolean = false ∧ op.isArithmetic = false := by
  cases op <;> decide

theorem not_boolean_arithmetic_of_isEquality {op : BinOp} :
    op.isEquality = true → op.isBoolean = false ∧ op.isArithmetic = false := by
  cases op <;> decide

theorem acceptsOperand_iff {op : BinOp} {t : FieldType} :
    acceptsOperand op (typeOf t) = true ↔ ∃ r, BinaryType op t r := by
  simp only [acceptsOperand, isError_typeOf, Bool.false_or]
  constructor
  · intro h
    cases hb : op.isBoolean with
    | true =>
      rw [hb, if_pos rfl, typeOf_eq_bool] at h
      exact ⟨.bool, h ▸ .logical hb⟩
    | false =>
      cases he : op.isEquality with
      | true => exact ⟨.bool, .equality he⟩
      | false =>
        simp only [hb, he, Bool.false_eq_true, if_false, Bool.false_or, isNumeric_typeOf] at h
        rcases isArithmetic_or_isRelational hb he with ho | ho
        · exact ⟨t, .arithmetic ho h⟩
        · exact ⟨.bool, .relational ho h⟩
  · rintro ⟨r, h⟩
    cases h with
    | logical ho => simp [ho, typeOf]
    | arithmetic ho ht => simp [isBoolean_of_isArithmetic ho, isNumeric_typeOf.mpr ht]
    | relational ho ht => simp [(not_boolean_arithmetic_of_isRelational ho).1, isNumeric_typeOf.mpr ht]
    | equality ho => simp [(not_boolean_arithmetic_of_isEquality ho).1, ho]

theorem resultType_typeOf {op : BinOp} {t r : FieldType} (h : BinaryType op t r) :
    Typed.resultType op (typeOf t) (typeOf t) = typeOf r := by
  cases h with
  | logical ho => simp [Typed.resultType, isArithmetic_of_isBoolean ho, typeOf]
  | arithmetic ho ht => simp [Typed.resultType, ho, isNumeric_typeOf.mpr ht]
  | relational ho ht => simp [Typed.resultType, (not_boolean_arithmetic_of_isRelational ho).2, typeOf]
  | equality ho => simp [Typed.resultType, (not_boolean_arithmetic_of_isEquality ho).2, typeOf]

theorem diagnoseOperands_iff {op : BinOp} {t u : FieldType} {p q : Span} :
    diagnoseOperands op (p, typeOf t) (q, typeOf u) = [] ↔ t = u ∧ ∃ r, BinaryType op t r := by
  simp only [diagnoseOperands, compatible_typeOf, ← acceptsOperand_iff]
  cases ht : acceptsOperand op (typeOf t) with
  | false => simp
  | true =>
    cases hu : acceptsOperand op (typeOf u) with
    | false =>
      simp only [if_true, Bool.false_eq_true, if_false, List.nil_append, Bool.and_false,
        Bool.false_and, and_true, List.append_nil, List.cons_ne_nil, false_iff]
      rintro rfl
      rw [ht] at hu
      exact nomatch hu
    | true => simp

theorem diagnoseOperand_iff {op : UnOp} {t : FieldType} {p : Span} :
    diagnoseOperand op (p, typeOf t) = [] ↔ UnaryType op t := by
  simp only [diagnoseOperand, isError_typeOf, Bool.or_false]
  constructor
  · intro h
    cases op with
    | not =>
      have ht : t = .bool := typeOf_eq_bool.mp (by simpa using h)
      exact ht ▸ .not
    | minus => exact .minus (isNumeric_typeOf.mp (by simpa using h))
    | plus => exact .plus (isNumeric_typeOf.mp (by simpa using h))
  · intro h
    cases h with
    | not => rfl
    | minus ht => simp [isNumeric_typeOf.mpr ht]
    | plus ht => simp [isNumeric_typeOf.mpr ht]

theorem unaryType_typeOf {op : UnOp} {t : FieldType} (h : UnaryType op t) :
    unaryType op (typeOf t) = typeOf t := by
  cases h <;> rfl

theorem diagnoseArgumentTypes_iff {parameters ts : List FieldType} {arguments : List (Span × Ty)}
    (ht : arguments.map (·.2) = ts.map typeOf) (hl : ts.length = parameters.length) :
    diagnoseArgumentTypes (parameters.map typeOf) arguments = [] ↔ ts = parameters := by
  induction ts generalizing parameters arguments with
  | nil =>
    obtain rfl := List.map_eq_nil_iff.mp ht
    obtain rfl := List.length_eq_zero_iff.mp hl.symm
    simp [diagnoseArgumentTypes]
  | cons t ts ih =>
    obtain ⟨a, arguments, rfl, ha, hts⟩ := List.map_eq_cons_iff.mp ht
    cases parameters with
    | nil => simp at hl
    | cons p parameters =>
      have hrest := ih hts (Nat.succ.inj hl)
      simp only [List.map_cons, diagnoseArgumentTypes, ha, compatible_typeOf, List.append_eq_nil_iff,
        hrest, List.cons.injEq]
      by_cases h : t = p <;> simp [h]

/-- Arguments are accepted when their types are those of the parameters. -/
theorem diagnoseArguments_iff (callee : Surface.Identifier) (parameters : List FieldType)
    {ts : List FieldType} {arguments : List (Span × Ty)} (ht : arguments.map (·.2) = ts.map typeOf) :
    diagnoseArguments callee (parameters.map typeOf) arguments = [] ↔ ts = parameters := by
  have hlength : arguments.length = ts.length := by simpa using congrArg List.length ht
  simp only [diagnoseArguments, hlength, List.length_map]
  by_cases hl : ts.length = parameters.length
  · rw [if_pos hl]
    exact diagnoseArgumentTypes_iff ht hl
  · rw [if_neg hl]
    simp only [List.cons_ne_nil, false_iff]
    rintro rfl
    exact hl rfl

/-! ## Expressions -/

section
variable {env : Env} {Γ : Context}

theorem typedExpr_unary (s : Span) {op : UnOp} {e : Surface.Expr} (h : ¬ IsNegative op e) :
    typedExpr env (.unary s op e) =
      .unary (unaryType op (typedExpr env e).ty) op (typedExpr env e) := by
  rw [typedExpr]
  rintro text span rfl rfl
  exact h trivial

theorem diagnoseExpr_unary (s : Span) {op : UnOp} {e : Surface.Expr} (h : ¬ IsNegative op e) :
    diagnoseExpr env (.unary s op e) =
      diagnoseExpr env e ++ diagnoseOperand op (placed env e) := by
  rw [diagnoseExpr]
  rintro text span rfl rfl
  exact h trivial

theorem map_placed (es : List Surface.Expr) :
    (es.map (placed env)).map (·.2) = (typedExprs env es).map (·.ty) := by
  induction es with
  | nil => rfl
  | cons e es ih => simpa [placed, typedExprs] using ih

mutual

/-- What the rules derive has no diagnostics. -/
theorem HasType.checked (ha : Agrees env Γ) {e : Surface.Expr} {e' : Typed.Expr} {t : FieldType}
    (h : HasType Γ e e' t) :
    diagnoseExpr env e = [] ∧ typedExpr env e = e' ∧ e'.ty = typeOf t :=
  match h with
  | .ternary hg hy hn => by
    obtain ⟨hgd, rfl, hgt⟩ := hg.checked ha
    obtain ⟨hyd, rfl, hyt⟩ := hy.checked ha
    obtain ⟨hnd, rfl, hnt⟩ := hn.checked ha
    have hguard : (typeOf .bool).compatible .bool = true := rfl
    refine ⟨?_, by rw [typedExpr], hyt⟩
    simp only [diagnoseExpr, hgd, hyd, hnd, hgt, hyt, hnt, hguard, compatible_typeOf]
    simp
  | .binary hl hr ho => by
    obtain ⟨hld, rfl, hlt⟩ := hl.checked ha
    obtain ⟨hrd, rfl, hrt⟩ := hr.checked ha
    refine ⟨?_, by rw [typedExpr], ?_⟩
    · rw [diagnoseExpr, hld, hrd, placed, placed, hlt, hrt]
      exact diagnoseOperands_iff.mpr ⟨rfl, _, ho⟩
    · rw [Typed.Expr.ty, hlt, hrt, resultType_typeOf ho]
  | .negative hv => by
    simp [diagnoseExpr, typedExpr, diagnoseLiteral, typedLiteral, Typed.Expr.ty, Typed.Literal.ty,
      typeOf, hv]
  | .unary hn he ho => by
    obtain ⟨hed, rfl, het⟩ := he.checked ha
    refine ⟨?_, ?_, rfl⟩
    · rw [diagnoseExpr_unary _ hn, hed, placed, het]
      exact diagnoseOperand_iff.mpr ho
    · rw [typedExpr_unary _ hn, het, unaryType_typeOf ho]
  | .call hf hs => by
    obtain ⟨hsd, rfl, hst⟩ := hs.checked ha
    have hget := ha.get?_function hf
    have hargs := fun callee => (diagnoseArguments_iff callee _ ((map_placed _).trans hst)).mpr rfl
    refine ⟨?_, ?_, rfl⟩
    · simp only [diagnoseExpr, hget, hsd, hargs]
      rfl
    · simp only [typedExpr, hget]
      rfl
  | @HasType.name _ _ access _ hn => by
    have hget := ha.get?_value hn
    refine ⟨?_, ?_, rfl⟩
    · cases access <;> simp [diagnoseExpr, diagnoseName, hget, Binding.ofAccess]
    · cases access <;> simp [typedExpr, nameType, hget, Binding.ofAccess]
  | .paren he => by
    obtain ⟨hed, rfl, het⟩ := he.checked ha
    exact ⟨by rw [diagnoseExpr, hed], by rw [typedExpr], het⟩
  | .literal hv => by
    obtain ⟨hd, rfl, rfl⟩ := literalValue_iff.mp hv
    exact ⟨by rw [diagnoseExpr, hd], by rw [typedExpr], typedLiteral_ty _⟩

theorem HasTypes.checked (ha : Agrees env Γ) {es : List Surface.Expr} {es' : List Typed.Expr}
    {ts : List FieldType} (h : HasTypes Γ es es' ts) :
    diagnoseExprs env es = [] ∧ typedExprs env es = es' ∧ es'.map (·.ty) = ts.map typeOf :=
  match h with
  | .nil => ⟨rfl, rfl, rfl⟩
  | .cons he hs => by
    obtain ⟨hed, rfl, het⟩ := he.checked ha
    obtain ⟨hsd, rfl, hst⟩ := hs.checked ha
    simp [diagnoseExprs, typedExprs, hed, hsd, het, hst]

end

theorem IsNegative.inv {op : UnOp} {e : Surface.Expr} (h : IsNegative op e) :
    ∃ text span, op = .minus ∧ e = .literal (.int text span) := by
  unfold IsNegative at h
  split at h
  · exact ⟨_, _, rfl, rfl⟩
  · exact h.elim

mutual

/-- What has no diagnostics is derived by the rules. -/
theorem hasType_typedExpr (ha : Agrees env Γ) (e : Surface.Expr) (h : diagnoseExpr env e = []) :
    ∃ t, HasType Γ e (typedExpr env e) t := by
  cases e with
  | ternary guard yes no =>
    simp only [diagnoseExpr, List.append_eq_nil_iff] at h
    obtain ⟨⟨⟨⟨hg, hy⟩, hn⟩, hguard⟩, hbranches⟩ := h
    obtain ⟨tg, hg⟩ := hasType_typedExpr ha guard hg
    obtain ⟨ty, hy⟩ := hasType_typedExpr ha yes hy
    obtain ⟨tn, hn⟩ := hasType_typedExpr ha no hn
    have hbool : tg = .bool := by
      cases tg <;> simp_all [(hg.checked ha).2.2, typeOf, Ty.compatible]
    have hsame : ty = tn := by
      simpa [(hy.checked ha).2.2, (hn.checked ha).2.2, compatible_typeOf] using hbranches
    subst hbool hsame
    exact ⟨ty, by rw [typedExpr]; exact .ternary hg hy hn⟩
  | binary op left right =>
    simp only [diagnoseExpr, List.append_eq_nil_iff, placed] at h
    obtain ⟨⟨hl, hr⟩, hoperands⟩ := h
    obtain ⟨tl, hl⟩ := hasType_typedExpr ha left hl
    obtain ⟨tr, hr⟩ := hasType_typedExpr ha right hr
    rw [(hl.checked ha).2.2, (hr.checked ha).2.2, diagnoseOperands_iff] at hoperands
    obtain ⟨rfl, result, ho⟩ := hoperands
    exact ⟨result, by rw [typedExpr]; exact .binary hl hr ho⟩
  | unary s op operand =>
    by_cases hn : IsNegative op operand
    · obtain ⟨text, span, rfl, rfl⟩ := hn.inv
      rw [diagnoseExpr] at h
      rw [typedExpr]
      have hv := literalValue_iff.mpr ⟨h, rfl, rfl⟩
      generalize typedLiteral (.int ("-" ++ text) (s + span)) = v at hv
      cases hv with
      | int hv => exact ⟨.int, .negative hv⟩
    · rw [diagnoseExpr_unary s hn, List.append_eq_nil_iff, placed] at h
      obtain ⟨t, he⟩ := hasType_typedExpr ha operand h.1
      have ho := h.2
      rw [(he.checked ha).2.2, diagnoseOperand_iff] at ho
      refine ⟨t, ?_⟩
      rw [typedExpr_unary s hn, (he.checked ha).2.2, unaryType_typeOf ho]
      exact .unary hn he ho
  | call callee arguments close =>
    cases hf : Γ.get? callee.name with
    | none => simp [diagnoseExpr, ha.get?_none hf] at h
    | some m =>
      cases m with
      | value access t =>
        cases access <;> simp [diagnoseExpr, ha.get?_value hf, Binding.ofAccess] at h
      | function parameters result =>
        simp only [diagnoseExpr, ha.get?_function hf, List.append_eq_nil_iff] at h
        obtain ⟨⟨hs, harguments⟩, hresult⟩ := h
        obtain ⟨ts, hs⟩ := hasTypes_typedExprs ha arguments hs
        obtain rfl := (diagnoseArguments_iff callee parameters
          ((map_placed _).trans (hs.checked ha).2.2)).mp harguments
        cases result with
        | none => simp at hresult
        | some t =>
          refine ⟨t, ?_⟩
          simp only [typedExpr, ha.get?_function hf]
          exact .call hf hs
  | name i =>
    cases hn : Γ.get? i.name with
    | none => simp [diagnoseExpr, diagnoseName, ha.get?_none hn] at h
    | some m =>
      cases m with
      | value access t =>
        have htype : nameType env i.name = typeOf t := by
          cases access <;> simp [nameType, ha.get?_value hn, Binding.ofAccess]
        exact ⟨t, by rw [typedExpr, htype]; exact .name hn⟩
      | function parameters result =>
        simp [diagnoseExpr, diagnoseName, ha.get?_function hn] at h
  | paren s inner =>
    rw [diagnoseExpr] at h
    obtain ⟨t, he⟩ := hasType_typedExpr ha inner h
    exact ⟨t, by rw [typedExpr]; exact .paren he⟩
  | literal v =>
    rw [diagnoseExpr] at h
    exact ⟨literalType v, by rw [typedExpr]; exact .literal (literalValue_iff.mpr ⟨h, rfl, rfl⟩)⟩

theorem hasTypes_typedExprs (ha : Agrees env Γ) (es : List Surface.Expr)
    (h : diagnoseExprs env es = []) : ∃ ts, HasTypes Γ es (typedExprs env es) ts := by
  cases es with
  | nil => exact ⟨[], .nil⟩
  | cons e es =>
    simp only [diagnoseExprs, List.append_eq_nil_iff] at h
    obtain ⟨t, he⟩ := hasType_typedExpr ha e h.1
    obtain ⟨ts, hes⟩ := hasTypes_typedExprs ha es h.2
    exact ⟨t :: ts, .cons he hes⟩

end

end
end PZero.Rules
