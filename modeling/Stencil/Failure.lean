import Stencil.Expression.Token
import Stencil.Number.Arithmetic

/-!
# Failed evaluations

Why an expression has no value. Each cause has a kind, which logs name, and a
message. Only functions of the host can fail without one.
-/

namespace Stencil

inductive Failure where
  | malformed (error : SyntaxError)
  | arithmetic (error : ArithmeticError)
  /-- An operation between two values that are not both numbers. -/
  | operands (op : ArithmeticOp) (left right : String)
  | operand (op : UnaryOp) (type : String)
  | concatenation
  | notCallable (shown : Text)
  /-- Two values that have no order. -/
  | unordered (left right : String)
  | wrongArguments
  | noLength (type : String)
  | circular
  /-- Work on containers that contain themselves, which never comes to an end. -/
  | endless
  /-- A row of digit signs that is not a decimal numeral. -/
  | notNumeral (text : Text)
  /-- A number of a mapping's keys that has no place in a data file. -/
  | unwritableNumber
  | unwritableKey
  | notKey (type : String)
  | malformedData
  | notText (type : String)
  /-- A value whose entries are wanted and that has none. -/
  | notMapping (type : String)
  /-- A value that cannot be gone through entry by entry. -/
  | noEntries (type : String)
  /-- Settings of the log that name no components. -/
  | noComponents
  /-- A failure of a host function. -/
  | raised (kind text : String)
  /-- A failure of a host function that has no text: asking for one fails in its turn. -/
  | untold (kind : String) (again : Failure)
  /-- A failure of a host function that nothing catches, such as the end of the program. -/
  | fatal (kind text : String)
deriving DecidableEq

namespace Failure

def kind : Failure → String
  | malformed _ => "ExpressionSyntaxError"
  | arithmetic .zeroDivisor => "ZeroDivisionError"
  | arithmetic .tooLarge => "OverflowError"
  | arithmetic .noRemainder => "ValueError"
  | operands _ _ _ => "TypeError"
  | operand _ _ => "TypeError"
  | concatenation => "TypeError"
  | notCallable _ => "TypeError"
  | unordered _ _ => "TypeError"
  | wrongArguments => "TypeError"
  | noLength _ => "TypeError"
  | circular => "ValueError"
  | endless => "RecursionError"
  | notNumeral _ => "ValueError"
  | unwritableNumber => "ValueError"
  | unwritableKey => "TypeError"
  | notKey _ => "TypeError"
  | malformedData => "JSONDecodeError"
  | notText _ => "TypeError"
  | notMapping _ => "TypeError"
  | noEntries _ => "AttributeError"
  | noComponents => "TypeError"
  | raised kind _ => kind
  | untold kind _ => kind
  | fatal kind _ => kind

def message : Failure → Text
  | malformed error => error.message
  | arithmetic .zeroDivisor => "division by zero"
  | arithmetic .tooLarge => "int too large to convert to float"
  | arithmetic .noRemainder => "math domain error"
  | operands op left right =>
      "Unsupported operands for " ++ op.sign ++ ": " ++ left ++ ", " ++ right
  | operand op type => "Bad operand for unary " ++ op.sign ++ ": " ++ type
  | concatenation => "Cannot concatenate a callable"
  | notCallable shown => shown ++ " is not callable"
  | unordered left right => "no order between " ++ left ++ " and " ++ right
  | wrongArguments => "wrong arguments"
  | noLength type => type ++ " has no length"
  | circular => "Circular reference detected"
  | endless => "endless work"
  | notNumeral text => "not a numeral: " ++ text
  | unwritableNumber => "number out of range"
  | unwritableKey => "unsuitable key"
  | notKey type => "not a key: " ++ type
  | malformedData => "malformed data"
  | notText type => "not a text: " ++ type
  | notMapping type => "not a mapping: " ++ type
  | noEntries type => "no entries: " ++ type
  | noComponents => "no components"
  | raised _ text => text
  | untold _ _ => ""
  | fatal _ text => text

/-- The text of a failure where it is caught, or the failure that goes on from there instead. -/
def told : Failure → Except Failure Text
  | untold _ again => .error again
  | fatal kind text => .error (fatal kind text)
  | failure => .ok failure.message

/-- Whether the message is worded here for the readers of answers and logs. -/
def isWorded : Failure → Bool
  | malformed _ => true
  | operands _ _ _ => true
  | operand _ _ => true
  | concatenation => true
  | notCallable _ => true
  | noLength _ => true
  | circular => true
  | raised _ _ => true
  | _ => false

end Failure
end Stencil
