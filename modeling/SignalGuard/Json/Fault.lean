import SignalGuard.Decimal.Shortest
import SignalGuard.Text.Quoted

/-!
# What can be wrong with a JSON text

A text is malformed, ends too early, or is well formed up to a place where it
does not hold what is expected there. Only the last kind is worded in detail.
-/

namespace SignalGuard.Json

/-- What stands at a place, as error texts tell it. -/
inductive Found
  | null
  | flag (b : Bool)
  | integer (i : Int)
  /-- A number with a fraction or an exponent, or an integer too large for a
  word; given by its bits. -/
  | float (bits : UInt64)
  | text (s : String)
  | map
  | sequence
  deriving BEq, DecidableEq, Repr

def Found.toText : Found → String
  | null => "null"
  | flag b => s!"boolean `{b}`"
  | integer i => s!"integer `{i}`"
  | float bits => s!"floating point `{Shortest.text bits}`"
  | text s => "string " ++ Quoted.quote s
  | map => "map"
  | sequence => "sequence"

/-- How the data differ from what is expected. -/
inductive Mismatch
  | missingField (name : String)
  | unknownField (name : String) (expected : List String)
  | duplicateField (name : String)
  | unknownVariant (spelling : String) (expected : List String)
  | invalidType (found : Found) (expected : String)
  | invalidValue (found : Found) (expected : String)
  | invalidLength (length : Nat) (record : String) (fields : Nat)
  | noVariant (name : String)
  deriving BEq, DecidableEq, Repr

def ticked (s : String) : String := "`" ++ s ++ "`"

/-- The candidates, as a choice of one, of two or of many. -/
def oneOf : List String → String
  | [] => "there are no candidates"
  | [a] => "expected " ++ ticked a
  | [a, b] => s!"expected {ticked a} or {ticked b}"
  | names => "expected one of " ++ ", ".intercalate (names.map ticked)

def Mismatch.message : Mismatch → String
  | missingField name => s!"missing field {ticked name}"
  | unknownField name expected => s!"unknown field {ticked name}, {oneOf expected}"
  | duplicateField name => s!"duplicate field {ticked name}"
  | unknownVariant spelling expected => s!"unknown variant {ticked spelling}, {oneOf expected}"
  | invalidType found expected => s!"invalid type: {found.toText}, expected {expected}"
  | invalidValue found expected => s!"invalid value: {found.toText}, expected {expected}"
  | invalidLength length record fields =>
    let plural := if fields = 1 then "" else "s"
    s!"invalid length {length}, expected struct {record} with {fields} element{plural}"
  | noVariant name => s!"data did not match any variant of untagged enum {name}"

inductive Fault
  | malformed
  | ended
  | mismatch (m : Mismatch)
  deriving BEq, DecidableEq, Repr

def Fault.message : Fault → String
  | malformed => "malformed text"
  | ended => "unexpected end of text"
  | mismatch m => m.message

end SignalGuard.Json
