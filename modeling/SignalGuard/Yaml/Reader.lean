import SignalGuard.Data.Shape
import SignalGuard.Yaml.Document
import SignalGuard.Yaml.Spelling

/-!
# Reading YAML by shape

A reader gives the datum that a node stands for. What a shape wants decides how
a scalar is taken: any scalar is a text, and only a plain one, or a literal one
with the tag of its type, is a number, a truth value or null. An empty scalar
counts as an empty list or an empty record.
-/

namespace SignalGuard.Yaml

abbrev Reader := Node → Option Datum

namespace Reader

/-- Takes the node behind an alias. -/
def followed (read : Reader) : Reader
  | .reference target => followed read target
  | n => read n

/-- Whether the scalar may spell a value of the type. -/
def spells (type : String) (s : Scalar) : Bool :=
  s.style = .plain || s.style = .literal && s.tag = some (TagHandle.standardMeaning ++ type)

def isBlankScalar (s : Scalar) : Bool := s.style = .plain && s.text.isEmpty

def integer (range : IntRange) : Reader
  | .scalar s =>
    if spells "int" s then
      ((Spelling.int? range.signed s.text.toList).filter range.contains).map .int
    else none
  | _ => none

def flag : Reader
  | .scalar s => if spells "bool" s then (Spelling.flag? s.text.toList).map .flag else none
  | _ => none

def text : Reader
  | .scalar s => some (.text s.text)
  | _ => none

/-- The name in a tag of the text's own. -/
def localTag? (s : Scalar) : Option String :=
  match s.tag.map String.toList with
  | some ['!'] => some "!"
  | some ('!' :: name) => some (String.ofList name)
  | _ => none

/-- Takes a spelling from the scalar, or from the tag of one that is null. -/
def choice (spellings : List String) : Reader
  | .scalar s =>
    match localTag? s with
    | some name =>
      if s.style = .plain && (s.text.isEmpty || Spelling.isNull s.text.toList) then
        variant name
      else none
    | none => variant s.text
  | _ => none
where
  variant (name : String) : Option Datum :=
    if spellings.contains name then some (.text name) else none

/-- Whether the scalar stands for nothing; `none` if its tag says so and it does
not. -/
def isNull? (s : Scalar) : Option Bool :=
  if s.style ≠ .plain then some false
  else match s.tag with
    | none => some (s.text.isEmpty || Spelling.isNull s.text.toList)
    | some tag =>
      if tag ≠ TagHandle.standardMeaning ++ "null" then some false
      else if Spelling.isNull s.text.toList then some true
      else none

def optional (read : Reader) : Reader
  | .scalar s => do if ← isNull? s then return .null else read (.scalar s)
  | n => read n

def list (read : Reader) : Reader
  | .sequence items => (items.mapM read).map .list
  | .scalar s => if isBlankScalar s then some (.list []) else none
  | _ => none

/-- A field of a record with the reader of its value. -/
structure Member where
  name : String
  default? : Option Datum
  read : Reader

abbrev Members := List (String × Datum)

/-- Reads an entry into the members seen so far. -/
def entry (members : List Member) (seen : Members) : Node × Node → Option Members
  | (k, v) => do
    let .text name ← followed text k | none
    let m ← members.find? (·.name == name)
    if (seen.lookup name).isSome then none else return (name, ← m.read v) :: seen

/-- A complete record: the fields in order, with defaults for those that were
not seen. -/
def complete (seen : Members) (members : List Member) : Option Members :=
  members.mapM fun m => ((seen.lookup m.name).orElse fun _ => m.default?).map (m.name, ·)

def record (members : List Member) : Reader
  | .mapping entries => do
    let seen ← entries.foldlM (entry members) []
    return .record (← complete seen members)
  | .scalar s => if isBlankScalar s then (complete [] members).map .record else none
  | _ => none

mutual

/-- The reader of a shape. -/
def ofShape : Shape → Reader
  | .integer range => followed (integer range)
  | .flag => followed flag
  | .text => followed text
  | .choice spellings => followed (choice spellings)
  | .reference _ => followed fun n => (integer .u8 n).orElse fun _ => text n
  | .optional shape => followed (optional (ofShape shape))
  | .list shape => followed (list (ofShape shape))
  | .record _ fields => followed (record (ofFields fields))

def ofFields : Fields → List Member
  | .done => []
  | .field name default? shape rest => ⟨name, default?, ofShape shape⟩ :: ofFields rest

end

end Reader

/-- How often the aliases of a text may be followed, for every mark in it. -/
def repeatsPerMark : Nat := 100

/-- Reads a whole text: one document of the shape. -/
def read (shape : Shape) (s : String) : Option Datum := do
  let root ← Document.ofString s
  let d ← Reader.ofShape shape root
  if root.repeats ≤ repeatsPerMark * root.marks then some d else none

end SignalGuard.Yaml
