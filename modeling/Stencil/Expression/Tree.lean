import Stencil.Number.Binary64
import Stencil.Text.Basic

/-!
# Expression trees
-/

namespace Stencil

inductive Literal where
  | undefined
  | null
  | bool (b : Bool)
  | int (n : Nat)
  | float (x : Binary64)
  | str (s : Text)
deriving DecidableEq

inductive UnaryOp where
  | not
  | minus
  | plus
deriving DecidableEq, Repr

inductive ArithmeticOp where
  | add
  | sub
  | mul
  | div
  | rem
deriving DecidableEq, Repr

inductive ComparisonOp where
  | lt
  | le
  | gt
  | ge
deriving DecidableEq, Repr

inductive BinaryOp where
  | arithmetic (op : ArithmeticOp)
  | comparison (op : ComparisonOp)
  | looseEqual
  | looseUnequal
  | strictEqual
  | strictUnequal
deriving DecidableEq, Repr

inductive LogicalOp where
  | and
  | or
deriving DecidableEq, Repr

inductive Expr where
  | literal (value : Literal)
  | name (name : String)
  /-- The receiver of the scope. -/
  | this
  | member (target key : Expr)
  | call (callee : Expr) (args : List Expr)
  | unary (op : UnaryOp) (operand : Expr)
  | binary (op : BinaryOp) (left right : Expr)
  | logical (op : LogicalOp) (left right : Expr)
  | conditional (test yes no : Expr)
  | array (items : List Expr)
  | object (entries : List (Text × Expr))

/-! # Operators and their signs -/

def UnaryOp.sign : UnaryOp → String
  | not => "!"
  | minus => "-"
  | plus => "+"

def ArithmeticOp.sign : ArithmeticOp → String
  | add => "+"
  | sub => "-"
  | mul => "*"
  | div => "/"
  | rem => "%"

def ComparisonOp.sign : ComparisonOp → String
  | lt => "<"
  | le => "<="
  | gt => ">"
  | ge => ">="

def BinaryOp.sign : BinaryOp → String
  | arithmetic op => op.sign
  | comparison op => op.sign
  | looseEqual => "=="
  | looseUnequal => "!="
  | strictEqual => "==="
  | strictUnequal => "!=="

def LogicalOp.sign : LogicalOp → String
  | and => "&&"
  | or => "||"

inductive Connective where
  | logical (op : LogicalOp)
  | binary (op : BinaryOp)
deriving DecidableEq, Repr

def Connective.sign : Connective → String
  | logical op => op.sign
  | binary op => op.sign

def Connective.join : Connective → Expr → Expr → Expr
  | logical op, left, right => .logical op left right
  | binary op, left, right => .binary op left right

abbrev Tier : Type := List Connective

/-- The tiers of precedence, the loosest first. -/
def tiers : List Tier :=
  [ [.logical .or],
    [.logical .and],
    [.binary .looseEqual, .binary .looseUnequal, .binary .strictEqual, .binary .strictUnequal],
    [.comparison .lt, .comparison .le, .comparison .gt, .comparison .ge].map .binary,
    [.arithmetic .add, .arithmetic .sub].map .binary,
    [.arithmetic .mul, .arithmetic .div, .arithmetic .rem].map .binary ]

def unaryOps : List UnaryOp := [.not, .minus, .plus]

/-! # Reserved words -/

/-- The expression that a name stands for; the reserved words are no names. -/
def Expr.ofWord (word : String) : Expr :=
  match word with
  | "this" => .this
  | "true" => .literal (.bool true)
  | "false" => .literal (.bool false)
  | "null" => .literal .null
  | "undefined" => .literal .undefined
  | other => .name other

end Stencil
