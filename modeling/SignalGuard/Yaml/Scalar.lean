/-!
# Scalars

A scalar is a text with the style it was written in and the tag in front of
it, if there is one.
-/

namespace SignalGuard.Yaml

inductive Style
  | plain
  | singleQuoted
  | doubleQuoted
  | literal
  | folded
  deriving BEq, DecidableEq, Repr

structure Scalar where
  tag : Option String
  style : Style
  text : String
  deriving BEq, DecidableEq, Repr

/-- What stands where nothing is written. -/
def Scalar.empty : Scalar := ⟨none, .plain, ""⟩

end SignalGuard.Yaml
