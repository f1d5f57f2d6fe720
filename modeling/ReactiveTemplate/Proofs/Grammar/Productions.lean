import ReactiveTemplate.Grammar.Expression
import ReactiveTemplate.Grammar.Token

/-!
# The language of expressions

The closed grammar of expressions over tokens, as productions: which lists of tokens
are a text of which tree. Nothing here says how a text is read.

* `Productions.IsPath`, `Productions.IsLiteral`, `Productions.IsOperand`: paths and operands.
* `Productions.IsArithmetic`, `Productions.IsChain`: operations, and parts joined by `+`.
* `Productions.IsSimple`, `Productions.IsExpr`: expressions without and with a connective.
-/

namespace ReactiveTemplate

/-- The sign of a comparison. -/
def CompareOp.sign : CompareOp → Sign
  | .strictEqual => .strictEqual
  | .strictNotEqual => .strictNotEqual
  | .looseEqual => .looseEqual
  | .looseNotEqual => .looseNotEqual
  | .less => .less
  | .greater => .greater
  | .lessOrEqual => .lessOrEqual
  | .greaterOrEqual => .greaterOrEqual

/-- The sign of an operation. -/
def ArithmeticOp.sign : ArithmeticOp → Sign
  | .add => .plus
  | .subtract => .minus
  | .multiply => .asterisk
  | .divide => .slash

/-- The sign of a connective. -/
def LogicalOp.sign : LogicalOp → Sign
  | .and => .and
  | .or => .or

namespace Productions

/-- `name ('.' name)*` -/
inductive IsPath : List Token → Path → Prop
  | name (root : String) : IsPath [.identifier root] ⟨root, []⟩
  | dot {ts : List Token} {root : String} {below : List String} (name : String) :
    IsPath ts ⟨root, below⟩ →
    IsPath (ts ++ [.sign .dot, .identifier name]) ⟨root, below ++ [name]⟩

/-- A quoted text, a number or a truth value. -/
inductive IsLiteral : Token → Literal → Prop
  | text (t : String) : IsLiteral (.text t) (.text t)
  | number (x : Float) : IsLiteral (.number x) (.number x)
  | bool (b : Bool) : IsLiteral (.bool b) (.bool b)

/-- `literal | path` -/
inductive IsOperand : List Token → Operand → Prop
  | literal {t : Token} {l : Literal} : IsLiteral t l → IsOperand [t] (.literal l)
  | path {ts : List Token} {p : Path} : IsPath ts p → IsOperand ts (.path p)

/-- `path ('+' | '-' | '*' | '/') number`, in parentheses or not. -/
inductive IsArithmetic : List Token → Arithmetic → Prop
  | bare {ts : List Token} {p : Path} (op : ArithmeticOp) (x : Float) :
    IsPath ts p → IsArithmetic (ts ++ [.sign op.sign, .number x]) ⟨p, op, x, false⟩
  | parenthesized {ts : List Token} {p : Path} (op : ArithmeticOp) (x : Float) :
    IsPath ts p →
    IsArithmetic (.sign .openParen :: ts ++ [.sign op.sign, .number x, .sign .closeParen])
      ⟨p, op, x, true⟩

/-- A literal, a path, or an operation in parentheses. -/
inductive IsPart : List Token → ConcatPart → Prop
  | literal {t : Token} {l : Literal} : IsLiteral t l → IsPart [t] (.literal l)
  | path {ts : List Token} {p : Path} : IsPath ts p → IsPart ts (.path p)
  | arithmetic {ts : List Token} {operation : Arithmetic} :
    IsArithmetic ts operation → operation.parenthesized = true →
    IsPart ts (.arithmetic operation)

/-- `part ('+' part)*` -/
inductive IsChain : List Token → List ConcatPart → Prop
  | single {ts : List Token} {part : ConcatPart} : IsPart ts part → IsChain ts [part]
  | cons {ts us : List Token} {part : ConcatPart} {parts : List ConcatPart} :
    IsPart ts part → IsChain us parts → IsChain (ts ++ .sign .plus :: us) (part :: parts)

/-- Whether a part is a quoted text. -/
def IsText (part : ConcatPart) : Prop := ∃ t, part = .literal (.text t)

/-- The parts that are operations. -/
def operations (parts : List ConcatPart) : List Arithmetic :=
  parts.filterMap fun
    | .arithmetic operation => some operation
    | _ => none

/-- Expressions without connectives. -/
inductive IsSimple : List Token → Expr → Prop
  | path {ts : List Token} {p : Path} : IsPath ts p → IsSimple ts (.path p)
  | literal {t : Token} {l : Literal} : IsLiteral t l → IsSimple [t] (.literal l)
  | compare {ts us : List Token} {p : Path} {o : Operand} (op : CompareOp) :
    IsPath ts p → IsOperand us o → IsSimple (ts ++ .sign op.sign :: us) (.compare p op o)
  | arithmetic {ts : List Token} {operation : Arithmetic} :
    IsArithmetic ts operation → IsSimple ts (.arithmetic operation)
  | concat {ts : List Token} {parts : List ConcatPart} :
    IsChain ts parts → 2 ≤ parts.length → (∃ part ∈ parts, IsText part) →
    (operations parts).length ≤ 1 → IsSimple ts (.concat parts)
  | not {ts : List Token} {p : Path} : IsPath ts p → IsSimple (.sign .bang :: ts) (.not p)
  | ternary {ts : List Token} {p : Path} {t u : Token} {l m : Literal} :
    IsPath ts p → IsLiteral t l → IsLiteral u m →
    IsSimple (ts ++ [.sign .question, t, .sign .colon, u]) (.ternary p l m)

/-- `simple | simple ('&&' | '||') simple` -/
inductive IsExpr : List Token → Expr → Prop
  | simple {ts : List Token} {e : Expr} : IsSimple ts e → IsExpr ts e
  | logical {ts us : List Token} {e f : Expr} (op : LogicalOp) :
    IsSimple ts e → IsSimple us f → IsExpr (ts ++ .sign op.sign :: us) (.logical e op f)

end Productions

end ReactiveTemplate
