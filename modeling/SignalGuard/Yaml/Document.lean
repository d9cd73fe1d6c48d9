import SignalGuard.Yaml.Layout
import SignalGuard.Yaml.Node

/-!
# Documents

A text holds at most one document: directives, a root node and the marks around
them. Reading takes tokens from the front of a list. A collection ends at its
closing token; where a node is left out an empty scalar stands for it.
-/

namespace SignalGuard.Yaml

/-- The tokens to come and the names given so far, the latest first. A name
without a node belongs to a node that is still being read. -/
structure Progress where
  tokens : List Token
  names : List (String × Option Node)

namespace Progress

def peek? (p : Progress) : Option Token := p.tokens.head?

def skip (p : Progress) : Progress := { p with tokens := p.tokens.tail }

/-- Gives the name to the node that follows. -/
def announce (name? : Option String) (p : Progress) : Progress :=
  match name? with
  | some name => { p with names := (name, none) :: p.names }
  | none => p

/-- Completes the node with the name, unless a node inside it took the name. -/
def complete (name? : Option String) (n : Node) (p : Progress) : Progress :=
  match name? with
  | some name =>
    if (p.names.lookup name).any (·.isNone) then { p with names := (name, some n) :: p.names }
    else p
  | none => p

/-- The complete node with the name. -/
def named? (name : String) (p : Progress) : Option Node := (p.names.lookup name).join

end Progress

/-- What may stand in front of a node. -/
structure Properties where
  anchor : Option String
  tag : Option TagName

namespace Properties

def isEmpty (q : Properties) : Bool := q.anchor.isNone && q.tag.isNone

/-- Reads an anchor and a tag, in either order. -/
def read (p : Progress) : Properties × Progress :=
  match p.tokens with
  | .anchor a :: .tag t :: rest => (⟨a, t⟩, { p with tokens := rest })
  | .tag t :: .anchor a :: rest => (⟨a, t⟩, { p with tokens := rest })
  | .anchor a :: rest => (⟨a, none⟩, { p with tokens := rest })
  | .tag t :: rest => (⟨none, t⟩, { p with tokens := rest })
  | _ => (⟨none, none⟩, p)

end Properties

namespace Node

/-- Whether the token ends an entry that was left empty. -/
abbrev Ends := Option Token → Bool

def endsBlockItem : Ends := fun t => t = some .blockEntry || t = some .blockEnd

def endsBlockValue : Ends := fun t => t = some .key || t = some .value || t = some .blockEnd

def endsIndentlessItem : Ends := fun t => endsBlockValue t || t = some .blockEntry

def endsFlowItem : Ends := fun t => t = some .flowEntry || t = some .flowSequenceEnd

def endsFlowValue : Ends := fun t => t = some .flowEntry || t = some .flowMappingEnd

def endsFlowKey : Ends := fun t => endsFlowValue t || t = some .value

/-- Where a node stands. Block collections stand only in blocks; the items of a
sequence may do without indentation where a mapping has its keys and values. -/
inductive Place
  | flow
  | block
  | blockEntry
  deriving BEq, DecidableEq, Repr

/-- The scalar of a token. The lone exclamation mark is no tag for it. -/
def ofScalar (tag : Option String) (style : Style) (text : String) : Node :=
  scalar ⟨tag.filter (· ≠ "!"), style, text⟩

abbrev Read (α : Type) := Progress → Option (α × Progress)

/-- Passes over the comma between two entries of a flow collection. -/
def skipComma (first : Bool) (p : Progress) : Option Progress :=
  if first then some p
  else if p.peek? = some .flowEntry then some p.skip
  else none

mutual

/-- Reads a node; the fuel bounds the depth and the length of what is read. -/
def read (handles : List TagHandle) (place : Place) : Nat → Read Node
  | 0, _ => none
  | fuel + 1, p =>
    match p.tokens with
    | .reference name :: rest => do
      return (reference (← p.named? name), { p with tokens := rest })
    | _ => do
      let (q, p) := Properties.read p
      let tag ← match q.tag with
        | none => some none
        | some t => (t.resolve? handles).map some
      let (n, p) ← readContent handles place q.isEmpty tag fuel (p.announce q.anchor)
      return (n, p.complete q.anchor n)

/-- Reads a node behind its anchor and tag. A bare node must have content. -/
def readContent (handles : List TagHandle) (place : Place) (bare : Bool) (tag : Option String) :
    Nat → Read Node
  | 0, _ => none
  | fuel + 1, p =>
    let inBlock := place ≠ .flow
    match p.peek? with
    | some (.scalar style text) => some (ofScalar tag style text, p.skip)
    | some .flowSequence =>
      (readFlowItems handles true fuel p.skip).map fun (items, p) => (sequence items, p)
    | some .flowMapping =>
      (readFlowEntries handles true fuel p.skip).map fun (entries, p) => (mapping entries, p)
    | token =>
      if token = some .blockEntry && place = .blockEntry then
        (readIndentlessItems handles fuel p).map fun (items, p) => (sequence items, p)
      else if token = some .blockSequence && inBlock then
        (readBlockItems handles fuel p.skip).map fun (items, p) => (sequence items, p)
      else if token = some .blockMapping && inBlock then
        (readBlockEntries handles fuel p.skip).map fun (entries, p) => (mapping entries, p)
      else if bare then none
      else some (scalar ⟨tag, .plain, ""⟩, p)

/-- Reads a node, or nothing at a token that ends the entry. -/
def readOrEmpty (handles : List TagHandle) (place : Place) (ends : Ends) : Nat → Read Node
  | 0, _ => none
  | fuel + 1, p => if ends p.peek? then some (empty, p) else read handles place fuel p

def readBlockItems (handles : List TagHandle) : Nat → Read (List Node)
  | 0, _ => none
  | fuel + 1, p =>
    match p.peek? with
    | some .blockEntry => do
      let (n, p) ← readOrEmpty handles .block endsBlockItem fuel p.skip
      let (ns, p) ← readBlockItems handles fuel p
      return (n :: ns, p)
    | some .blockEnd => some ([], p.skip)
    | _ => none

def readIndentlessItems (handles : List TagHandle) : Nat → Read (List Node)
  | 0, _ => none
  | fuel + 1, p =>
    match p.peek? with
    | some .blockEntry => do
      let (n, p) ← readOrEmpty handles .block endsIndentlessItem fuel p.skip
      let (ns, p) ← readIndentlessItems handles fuel p
      return (n :: ns, p)
    | _ => some ([], p)

def readBlockEntries (handles : List TagHandle) : Nat → Read (List (Node × Node))
  | 0, _ => none
  | fuel + 1, p =>
    match p.peek? with
    | some .key => do
      let (k, p) ← readOrEmpty handles .blockEntry endsBlockValue fuel p.skip
      let (v, p) ← readValue handles .blockEntry endsBlockValue fuel p
      let (es, p) ← readBlockEntries handles fuel p
      return ((k, v) :: es, p)
    | some .blockEnd => some ([], p.skip)
    | _ => none

/-- Reads the value of an entry, which may be missing altogether. -/
def readValue (handles : List TagHandle) (place : Place) (ends : Ends) : Nat → Read Node
  | 0, _ => none
  | fuel + 1, p =>
    if p.peek? = some .value then readOrEmpty handles place ends fuel p.skip
    else some (empty, p)

/-- Reads the items of a flow sequence. An item with a colon is a mapping with
one entry, whose key must not be left out. -/
def readFlowItems (handles : List TagHandle) (first : Bool) : Nat → Read (List Node)
  | 0, _ => none
  | fuel + 1, p => do
    if p.peek? = some .flowSequenceEnd then return ([], p.skip)
    let p ← skipComma first p
    match p.peek? with
    | some .flowSequenceEnd => return ([], p.skip)
    | some .key =>
      let (k, p) ← read handles .flow fuel p.skip
      let (v, p) ← readValue handles .flow endsFlowItem fuel p
      let (ns, p) ← readFlowItems handles false fuel p
      return (mapping [(k, v)] :: ns, p)
    | _ =>
      let (n, p) ← read handles .flow fuel p
      let (ns, p) ← readFlowItems handles false fuel p
      return (n :: ns, p)

def readFlowEntries (handles : List TagHandle) (first : Bool) : Nat → Read (List (Node × Node))
  | 0, _ => none
  | fuel + 1, p => do
    if p.peek? = some .flowMappingEnd then return ([], p.skip)
    let p ← skipComma first p
    match p.peek? with
    | some .flowMappingEnd => return ([], p.skip)
    | some .key =>
      let (k, p) ← readOrEmpty handles .flow endsFlowKey fuel p.skip
      let (v, p) ← readValue handles .flow endsFlowValue fuel p
      let (es, p) ← readFlowEntries handles false fuel p
      return ((k, v) :: es, p)
    | _ =>
      let (k, p) ← read handles .flow fuel p
      let (es, p) ← readFlowEntries handles false fuel p
      return ((k, empty) :: es, p)

end

end Node

namespace Document

/-- The directives of a document. -/
structure Directives where
  versioned : Bool
  handles : List TagHandle

/-- Versions that can be read. -/
def supports (major minor : Nat) : Bool := major = 1 && (minor = 1 || minor = 2)

/-- Reads the directives. A second version or a second meaning for a handle is
refused. -/
def readDirectives (d : Directives) : List Token → Option (Directives × List Token)
  | .version major minor :: rest =>
    if d.versioned || !supports major minor then none
    else readDirectives { d with versioned := true } rest
  | .handle h :: rest =>
    if d.handles.any (·.handle == h.handle) then none
    else readDirectives { d with handles := d.handles ++ [h] } rest
  | tokens => some (d, tokens)

/-- Reads the root node; nothing may follow but ends of the document. -/
def readRoot (handles : List TagHandle) (tokens : List Token) : Option Node := do
  let handles := handles ++ TagHandle.defaults
  let (root, p) ← Node.read handles .block (4 * tokens.length + 4) ⟨tokens, []⟩
  if p.tokens.all (· = .documentEnd) then some root else none

/-- Reads what follows the start of a document. -/
def readBody (handles : List TagHandle) (tokens : List Token) : Option Node :=
  if tokens.all (· = .documentEnd) then some .empty else readRoot handles tokens

/-- The root of the document that the tokens describe. Without tokens it is
empty. -/
def ofTokens (tokens : List Token) : Option Node :=
  match tokens with
  | [] => some .empty
  | .version _ _ :: _ | .handle _ :: _ | .documentStart :: _ => do
    match ← readDirectives ⟨false, []⟩ tokens with
    | (d, .documentStart :: rest) => readBody d.handles rest
    | _ => none
  | _ => readRoot [] tokens

/-- The root of the document in a text. -/
def ofString (s : String) : Option Node := do ofTokens (← Token.ofString s)

end Document

end SignalGuard.Yaml
