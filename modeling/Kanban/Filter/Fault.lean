import Kanban.Filter.Expr

/-!
# Faults of a filter text
-/

namespace Kanban.Filter

/-- Why a filter is refused.  Positions count bytes from the beginning of the text. -/
inductive Fault where
  | unknownZone (name : String)
  | expectedField (position : Nat)
  | unknownField (name : String)
  | invalidComparator (word : String)
  | unsupportedComparator (c : Comparator) (f : Field)
  | missingValue (position : Nat)
  | unterminatedQuote
  | invalidValue (text : String) (f : Field)
  | missingParenthesis
  | unexpected (rest : String) (position : Nat)
  | tooDeep
  | other (message : String)
  deriving DecidableEq

namespace Fault

/-- The fault without the words that introduce it. -/
def detail : Fault → String
  | unknownZone name => "unknown time zone `" ++ name ++ "`"
  | expectedField position => "expected a field name at position " ++ toString position
  | unknownField name => "unknown field `" ++ name ++ "`"
  | invalidComparator word => "invalid comparator `" ++ word ++ "`"
  | unsupportedComparator c f =>
    "comparator `" ++ c.text ++ "` is not supported for field `" ++ f.name ++ "`"
  | missingValue position => "missing value at position " ++ toString position
  | unterminatedQuote => "unterminated quoted value"
  | invalidValue text f => "invalid value `" ++ text ++ "` for field `" ++ f.name ++ "`"
  | missingParenthesis => "missing closing parenthesis"
  | unexpected rest position => "unexpected `" ++ rest ++ "` at position " ++ toString position
  | tooDeep => "expression is nested too deeply"
  | other message => message

def message : Fault → String
  | other message => message
  | fault => "invalid filter expression: " ++ fault.detail

end Fault

end Kanban.Filter
