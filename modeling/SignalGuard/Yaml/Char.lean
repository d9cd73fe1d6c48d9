/-!
# Characters of YAML

The classes that tokens are told apart by. Besides the ASCII line ends, the
next-line character and the line and paragraph separators end a line.
-/

namespace SignalGuard.Yaml

/-- Whether a text may hold the character at all. -/
def isAllowed (c : Char) : Bool :=
  let n := c.toNat
  n = 0x09 || n = 0x0A || n = 0x0D || 0x20 ≤ n && n ≤ 0x7E || n = 0x85 ||
    0xA0 ≤ n && n ≤ 0xD7FF || 0xE000 ≤ n && n ≤ 0xFFFD || 0x10000 ≤ n

/-- Whether the character is visible as it stands, or a line feed. -/
def isPrintable (c : Char) : Bool :=
  let n := c.toNat
  n = 0x0A || 0x20 ≤ n && n ≤ 0x7E || 0xA0 ≤ n && n ≤ 0xFFFD && n ≠ 0xFEFF || 0x10000 ≤ n

def byteOrderMark : Char := '\ufeff'

def nextLine : Char := '\u0085'

def lineSeparator : Char := '\u2028'

def paragraphSeparator : Char := '\u2029'

def isBreak (c : Char) : Bool :=
  c = '\n' || c = '\r' || c = nextLine || c = lineSeparator || c = paragraphSeparator

def isBlank (c : Char) : Bool := c = ' ' || c = '\t'

/-- Blanks, line breaks and the end of the text, which is `none`. -/
def isGap : Option Char → Bool
  | none => true
  | some c => isBlank c || isBreak c

/-- Characters of anchors and tag handles. -/
def isWord (c : Char) : Bool := c.isAlphanum || c = '_' || c = '-'

/-- Characters that can stand in a tag; the last three only between angle
brackets. -/
def isTagChar (verbatim : Bool) (c : Char) : Bool :=
  isWord c || ";/?:@&=+$.!~*'()%".toList.contains c || verbatim && ",[]".toList.contains c

/-- Characters that end a plain scalar between brackets. -/
def isFlowIndicator (c : Char) : Bool :=
  c = ',' || c = '[' || c = ']' || c = '\x7b' || c = '\x7d'

/-- Characters that cannot start a plain scalar. -/
def isIndicator (c : Char) : Bool :=
  isFlowIndicator c || c = '-' || c = '?' || c = ':' || c = '#' || c = '&' || c = '*' || c = '!' ||
    c = '|' || c = '>' || c = '\'' || c = '"' || c = '%' || c = '@' || c = '\x60'

end SignalGuard.Yaml
