/-!
# Files

Files are read whole and as text. How they are reached is left to the caller: a
`FileReader` gives the bytes behind a path. A `FileTree` is a reader of its own,
which looks a path up among files held in memory.
-/

namespace SignalGuard

/-- Why a file cannot be read. -/
inductive FileError
  | missing
  | notDirectory
  | isDirectory
  | notText
  /-- Anything else that the system reports. -/
  | other (message : String)
  deriving BEq, DecidableEq, Repr

def FileError.message : FileError → String
  | missing => "No such file or directory (os error 2)"
  | notDirectory => "Not a directory (os error 20)"
  | isDirectory => "Is a directory (os error 21)"
  | notText => "stream did not contain valid UTF-8"
  | other message => message

abbrev FileReader (m : Type → Type) := String → m (Except FileError ByteArray)

/-- The text that the bytes encode. -/
def decodeText (bytes : ByteArray) : Except FileError String :=
  match String.fromUTF8? bytes with
  | some s => .ok s
  | none => .error .notText

namespace Path

/-- Splits at every slash. -/
def split : List Char → List (List Char)
  | [] => [[]]
  | c :: cs =>
    match split cs with
    | [] => [[c]]
    | part :: parts => if c = '/' then [] :: part :: parts else (c :: part) :: parts

/-- The steps of a path, without those that stay where they are. -/
def steps (path : String) : List String :=
  ((split path.toList).map String.ofList).filter fun step => step ≠ "" && step ≠ "."

/-- Whether the path says that it leads to a directory. -/
def endsInDirectory (path : String) : Bool :=
  match (split path.toList).getLast? with
  | some last => last.isEmpty || last = ['.']
  | none => false

/-- The last step, unless it leads upwards. -/
def fileName? (path : String) : Option String := (steps path).getLast?.filter (· ≠ "..")

/-- What follows the last point of the file name, unless the point is its first
character. -/
def extension? (path : String) : Option String := do
  let name ← fileName? path
  let reversed := name.toList.reverse
  match reversed.dropWhile (· ≠ '.') with
  | _ :: _ :: _ => some (String.ofList (reversed.takeWhile (· ≠ '.')).reverse)
  | _ => none

end Path

/-- Files by their path, as steps from the current directory; a directory is a
path without bytes. -/
structure FileTree where
  entries : List (List String × Option ByteArray)

namespace FileTree

inductive Place
  | directory
  | file (bytes : ByteArray)

/-- What stands at the end of the steps. -/
def place? (t : FileTree) (steps : List String) : Option Place :=
  match t.entries.lookup steps with
  | some (some bytes) => some (.file bytes)
  | some none => some .directory
  | none => if t.entries.any fun (s, _) => steps.isPrefixOf s then some .directory else none

/-- Follows the steps that are left from a directory. -/
def walk (t : FileTree) (here : List String) : List String → Except FileError Place
  | [] => .ok .directory
  | ".." :: rest =>
    match here with
    | [] => .error .missing
    | _ :: _ => walk t here.dropLast rest
  | step :: rest =>
    match t.place? (here ++ [step]) with
    | none => .error .missing
    | some .directory => walk t (here ++ [step]) rest
    | some (.file bytes) => if rest.isEmpty then .ok (.file bytes) else .error .notDirectory

/-- The bytes of the file at the path. Nothing is above the current directory. -/
def read (t : FileTree) (path : String) : Except FileError ByteArray :=
  if path.isEmpty || path.front? = some '/' then .error .missing
  else
    match t.walk [] (Path.steps path) with
    | .error e => .error e
    | .ok .directory => .error .isDirectory
    | .ok (.file bytes) =>
      if Path.endsInDirectory path then .error .notDirectory else .ok bytes

end FileTree

end SignalGuard
