/-
Module: ParameterLog.Json.ReadError
Purpose: why a text cannot be read as the JSON that was asked for.
Main exports: Json.ReadError, Json.describe
-/
import ParameterLog.Json.Decimal
import ParameterLog.Json.Value
import ParameterLog.Text.Quoted

/-!
Three things can be wrong with a text: it is not JSON, it ends before the value does, or it is JSON
of another shape than asked for. A text is read once from left to right, so of two faults the first
one that the reader comes to is reported.
-/

namespace ParameterLog.Json

/-- Why a text cannot be read. -/
inductive ReadError where
  /-- The text is not JSON. -/
  | malformed
  /-- The text ends inside a value. -/
  | unfinished
  /-- The value has another shape than asked for. -/
  | mismatch (message : String)
deriving Repr, DecidableEq, Inhabited

/-- The wording of a read error. -/
def ReadError.message : ReadError → String
  | .malformed => "malformed text"
  | .unfinished => "the text ends inside a value"
  | .mismatch message => message

/-- What a number is called in a message. -/
def Number.describe : Number → String
  | .integer n => s!"integer `{n}`"
  | .double d => s!"floating point `{d.text}`"

/-- What a value is called in a message. -/
def describe : Value → String
  | .null => "null"
  | .bool true => "boolean `true`"
  | .bool false => "boolean `false`"
  | .number n => n.describe
  | .text s => "string " ++ Text.quote s
  | .array _ => "sequence"
  | .object _ => "map"

/-- The message about something found where something else was expected. -/
def wrongType (found expected : String) : String :=
  s!"invalid type: {found}, expected {expected}"

end ParameterLog.Json
