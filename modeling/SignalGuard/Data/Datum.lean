/-!
# Data of description files

A `Datum` is what both file formats carry: numbers, flags, texts, lists and
records. A record read through a shape has all members of the shape, in its
order, with the defaults filled in; a record to be written has them too. The
accessors read a member of another kind as zero, false or empty, so that a
typed view of a record is total.
-/

namespace SignalGuard

inductive Datum
  | null
  | flag (b : Bool)
  | int (i : Int)
  | text (s : String)
  | list (items : List Datum)
  | record (members : List (String × Datum))
  deriving Repr, Inhabited

namespace Datum

def member (d : Datum) (name : String) : Datum :=
  match d with
  | record members => (members.lookup name).getD null
  | _ => null

def toInt : Datum → Int
  | int i => i
  | _ => 0

def toBool : Datum → Bool
  | flag b => b
  | _ => false

def toText : Datum → String
  | text s => s
  | _ => ""

def toList : Datum → List Datum
  | list items => items
  | _ => []

def isNull : Datum → Bool
  | null => true
  | _ => false

/-- Reads a value that may be null. -/
def toOption {α : Type} (f : Datum → α) (d : Datum) : Option α :=
  if d.isNull then none else some (f d)

/-- Writes a value that may be missing. -/
def ofOption {α : Type} (f : α → Datum) : Option α → Datum
  | some a => f a
  | none => null

def ofNat (n : Nat) : Datum := int n

def toUInt8 (d : Datum) : UInt8 := UInt8.ofNat d.toInt.toNat

def toUInt32 (d : Datum) : UInt32 := UInt32.ofNat d.toInt.toNat

def toUInt64 (d : Datum) : UInt64 := UInt64.ofNat d.toInt.toNat

def toInt32 (d : Datum) : Int32 := Int32.ofInt d.toInt

/-- The value with the spelling, among the values of a finite type. -/
def toChoice {α : Type} [Inhabited α] (all : List α) (spelling : α → String) (d : Datum) : α :=
  (all.find? fun a => spelling a == d.toText).getD default

end Datum

end SignalGuard
