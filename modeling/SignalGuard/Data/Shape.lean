import SignalGuard.Data.Datum

/-!
# Shapes

A shape says what a description may hold at one place. It is the only account
of member names, defaults and spellings: the readers of both file formats, the
order of written members and the candidates in error texts all come from it.
-/

namespace SignalGuard

/-- A range of integers with the name it has in error texts. -/
structure IntRange where
  name : String
  least : Int
  greatest : Int
  deriving BEq, DecidableEq, Repr

namespace IntRange

def u8 : IntRange := ⟨"u8", 0, UInt8.size - 1⟩

def u32 : IntRange := ⟨"u32", 0, UInt32.size - 1⟩

def u64 : IntRange := ⟨"u64", 0, UInt64.size - 1⟩

def i32 : IntRange := ⟨"i32", Int32.minValue.toInt, Int32.maxValue.toInt⟩

def contains (r : IntRange) (i : Int) : Bool := r.least ≤ i && i ≤ r.greatest

/-- Whether the range holds negative numbers. -/
def signed (r : IntRange) : Bool := r.least < 0

end IntRange

mutual

inductive Shape
  | integer (range : IntRange)
  | flag
  | text
  /-- One of a few spellings. -/
  | choice (spellings : List String)
  /-- A byte or a text; `name` is what error texts call it. -/
  | reference (name : String)
  /-- Null stands for nothing. -/
  | optional (shape : Shape)
  | list (shape : Shape)
  | record (name : String) (fields : Fields)

/-- The fields of a record. A field with a default may be left out. -/
inductive Fields
  | done
  | field (name : String) (default? : Option Datum) (shape : Shape) (rest : Fields)

end

namespace Fields

def required (name : String) (shape : Shape) (rest : Fields) : Fields := field name none shape rest

def defaulted (name : String) (value : Datum) (shape : Shape) (rest : Fields) : Fields :=
  field name (some value) shape rest

def names : Fields → List String
  | done => []
  | field name _ _ rest => name :: rest.names

end Fields

end SignalGuard
