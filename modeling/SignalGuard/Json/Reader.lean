import SignalGuard.Data.Shape
import SignalGuard.Json.Token

/-!
# Reading JSON by shape

A reader takes tokens from the front of a list and gives the datum and the
remaining tokens. It goes from left to right and stops at the first problem.

A record may be written as a map or as a list of its fields in order; fields
with a default may be left out, in a list only at the end. A choice may be
written as its spelling or as a map from the spelling to null.
-/

namespace SignalGuard.Json

abbrev Reader (α : Type) := List Token → Except Fault (α × List Token)

namespace Reader

/-- The fault for a value of the wrong kind. -/
def unexpected (expected : String) : List Token → Fault
  | [] => .ended
  | token :: _ =>
    match token with
    | .null => .mismatch (.invalidType .null expected)
    | .flag b => .mismatch (.invalidType (.flag b) expected)
    | .number (.int i) => .mismatch (.invalidType (.integer i) expected)
    | .number (.float bits) => .mismatch (.invalidType (.float bits) expected)
    | .text s => .mismatch (.invalidType (.text s) expected)
    | .openMap => .mismatch (.invalidType .map expected)
    | .openList => .mismatch (.invalidType .sequence expected)
    | .broken f _ => f
    | .closeMap | .closeList | .colon | .comma => .malformed

/-- The fault for punctuation that is missing. -/
def misplaced : List Token → Fault
  | [] => .ended
  | _ => .malformed

/-- The fault for something that must be a text but is not. -/
def notText : List Token → Fault
  | [] => .ended
  | .broken f true :: _ => f
  | _ => .malformed

/-- Passes over one token. -/
def skip (token : Token) : Reader Unit
  | ts =>
    match ts with
    | t :: rest => if t = token then .ok ((), rest) else .error .malformed
    | [] => .error .ended

def integer (range : IntRange) : Reader Datum
  | .number (.int i) :: rest =>
    if range.contains i then .ok (.int i, rest)
    else .error (.mismatch (.invalidValue (.integer i) range.name))
  | ts => .error (unexpected range.name ts)

def flag : Reader Datum
  | .flag b :: rest => .ok (.flag b, rest)
  | ts => .error (unexpected "a boolean" ts)

def text : Reader Datum
  | .text s :: rest => .ok (.text s, rest)
  | ts => .error (unexpected "a string" ts)

/-- Accepts one of the spellings. -/
def variant (spellings : List String) (s : String) : Except Fault Datum :=
  if spellings.contains s then .ok (.text s) else .error (.mismatch (.unknownVariant s spellings))

/-- The null that stands behind a spelling in a map. -/
def unit : Reader Unit
  | .null :: rest => .ok ((), rest)
  | ts => .error (unexpected "unit" ts)

def choice (spellings : List String) : Reader Datum
  | .text s :: rest => do return (← variant spellings s, rest)
  | .openMap :: .text s :: rest => do
    let d ← variant spellings s
    let ((), rest) ← skip .colon rest
    let ((), rest) ← unit rest
    let ((), rest) ← skip .closeMap rest
    return (d, rest)
  | .openMap :: rest => .error (unexpected "variant identifier" rest)
  | ts => .error (notText ts)

def optional (read : Reader Datum) : Reader Datum
  | .null :: rest => .ok (.null, rest)
  | ts => read ts

/-- Whether one more element stands before the closing token, which is passed
over otherwise. All elements but the first follow a comma. -/
def more (close : Token) (first : Bool) : Reader Bool
  | ts =>
    if first then
      match ts with
      | [] => .error .ended
      | t :: rest => if t = close then .ok (false, rest) else .ok (true, ts)
    else
      match ts with
      | .comma :: rest =>
        match rest with
        | [] => .error .ended
        | t :: _ => if t = close then .error .malformed else .ok (true, rest)
      | _ => (skip close ts).map fun ((), rest) => (false, rest)

/-- Reads at most `fuel` elements and the end of their list. -/
def items (read : Reader Datum) : Nat → Bool → Reader (List Datum)
  | 0, _, ts => .error (misplaced ts)
  | fuel + 1, first, ts => do
    match ← more .closeList first ts with
    | (false, rest) => return ([], rest)
    | (true, rest) =>
      let (d, rest) ← read rest
      let (ds, rest) ← items read fuel false rest
      return (d :: ds, rest)

/-- Reads a list of at most `limit` elements. -/
def list (limit : Nat) (read : Reader Datum) : Reader Datum
  | .openList :: rest => (items read limit true rest).map fun (ds, rest) => (.list ds, rest)
  | ts => .error (unexpected "a sequence" ts)

/-- A field of a record with the reader of its value. -/
structure Member where
  name : String
  default? : Option Datum
  read : Reader Datum

/-- Members by name. -/
abbrev Members := List (String × Datum)

/-- A complete record: the fields in order, with defaults for those that were
not seen. The first missing field without a default is a fault. -/
def complete (seen : Members) : List Member → Except Fault Members
  | [] => .ok []
  | m :: ms =>
    match (seen.lookup m.name).orElse fun _ => m.default? with
    | some d => (complete seen ms).map ((m.name, d) :: ·)
    | none => .error (.mismatch (.missingField m.name))

/-- Reads a key and its value into the members seen so far. -/
def entry (members : List Member) (seen : Members) : Reader Members
  | .text key :: rest =>
    match members.find? (·.name == key) with
    | none => .error (.mismatch (.unknownField key (members.map (·.name))))
    | some m =>
      if (seen.lookup key).isSome then .error (.mismatch (.duplicateField key))
      else do
        let ((), rest) ← skip .colon rest
        let (d, rest) ← m.read rest
        return ((key, d) :: seen, rest)
  | ts => .error (notText ts)

/-- Reads at most `fuel` entries and the end of their map. -/
def entries (members : List Member) : Nat → Bool → Members → Reader Members
  | 0, _, _, ts => .error (misplaced ts)
  | fuel + 1, first, seen, ts => do
    match ← more .closeMap first ts with
    | (false, rest) => return (seen, rest)
    | (true, rest) =>
      let (seen, rest) ← entry members seen rest
      entries members fuel false seen rest

/-- The defaults of the fields from position `index` on. A field without one is
missed at its position. -/
def remaining (record : String) (count index : Nat) : List Member → Except Fault Members
  | [] => .ok []
  | m :: ms =>
    match m.default? with
    | some d => (remaining record count (index + 1) ms).map ((m.name, d) :: ·)
    | none => .error (.mismatch (.invalidLength index record count))

/-- Reads the fields of a record that is written as a list, from position
`index` on. -/
def positional (record : String) (count index : Nat) : List Member → Reader Members
  | [], ts =>
    match ts with
    | .closeList :: rest => .ok ([], rest)
    | _ => .error (misplaced ts)
  | m :: ms, ts => do
    match ← more .closeList (index == 0) ts with
    | (false, rest) => return (← remaining record count index (m :: ms), rest)
    | (true, rest) =>
      let (d, rest) ← m.read rest
      let (ds, rest) ← positional record count (index + 1) ms rest
      return ((m.name, d) :: ds, rest)

/-- Reads a record, in a map of at most `limit` entries. -/
def record (limit : Nat) (name : String) (members : List Member) : Reader Datum
  | .openMap :: rest => do
    let (seen, rest) ← entries members limit true [] rest
    return (.record (← complete seen members), rest)
  | .openList :: rest => do
    let (ds, rest) ← positional name members.length 0 members rest
    return (.record ds, rest)
  | ts => .error (unexpected s!"struct {name}" ts)

/-- Reads at most `fuel` entries of a map with any keys. -/
def anyEntries (read : Reader Datum) : Nat → Bool → Reader Unit
  | 0, _, ts => .error (misplaced ts)
  | fuel + 1, first, ts => do
    match ← more .closeMap first ts with
    | (false, rest) => return ((), rest)
    | (true, .text _ :: rest) =>
      let ((), rest) ← skip .colon rest
      let (_, rest) ← read rest
      anyEntries read fuel false rest
    | (true, rest) => throw (notText rest)

/-- Reads a value of any kind, nested at most `depth` levels deep. What is
neither an integer nor a text comes out as null. -/
def anything (limit : Nat) : Nat → Reader Datum
  | depth, .openList :: rest =>
    match depth with
    | 0 => .error .malformed
    | depth + 1 => (items (anything limit depth) limit true rest).map fun (_, rest) => (.null, rest)
  | depth, .openMap :: rest =>
    match depth with
    | 0 => .error .malformed
    | depth + 1 => (anyEntries (anything limit depth) limit true rest).map fun (_, rest) =>
      (.null, rest)
  | _, .number (.int i) :: rest => .ok (.int i, rest)
  | _, .text s :: rest => .ok (.text s, rest)
  | _, .number (.float _) :: rest | _, .flag _ :: rest | _, .null :: rest => .ok (.null, rest)
  | _, ts => .error (unexpected "anything" ts)

/-- Levels of nesting below a field that takes any value. A text may nest 127
levels deep and the record around the field is one of them. -/
def freeDepth : Nat := 126

/-- Reads a byte or a text. A value of another kind is read to its end before
it is refused. -/
def reference (limit : Nat) (name : String) : Reader Datum
  | ts => do
    let (d, rest) ← anything limit freeDepth ts
    match d with
    | .text s => return (.text s, rest)
    | .int i =>
      if IntRange.u8.contains i then return (.int i, rest)
      else throw (.mismatch (.noVariant name))
    | _ => throw (.mismatch (.noVariant name))

mutual

/-- The reader of a shape; lists and maps have at most `limit` entries. -/
def ofShape (limit : Nat) : Shape → Reader Datum
  | .integer range => integer range
  | .flag => flag
  | .text => text
  | .choice spellings => choice spellings
  | .reference name => reference limit name
  | .optional shape => optional (ofShape limit shape)
  | .list shape => list limit (ofShape limit shape)
  | .record name fields => record limit name (ofFields limit fields)

def ofFields (limit : Nat) : Fields → List Member
  | .done => []
  | .field name default? shape rest => ⟨name, default?, ofShape limit shape⟩ :: ofFields limit rest

end

end Reader

/-- Reads a whole text: one value of the shape and nothing after it. -/
def read (shape : Shape) (s : String) : Except Fault Datum :=
  let tokens := Token.ofString s
  match Reader.ofShape tokens.length shape tokens with
  | .error f => .error f
  | .ok (d, []) => .ok d
  | .ok (_, _ :: _) => .error .malformed

end SignalGuard.Json
