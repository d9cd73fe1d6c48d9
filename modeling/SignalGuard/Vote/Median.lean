import SignalGuard.Narrowing

/-!
# Medians of a bounded number of values

Voting sorts at most `voteCapacity` values, in place, in the front of a buffer
that holds no more than these. Sorting is by insertion: each value sinks past
the larger ones before it. The median of an even number of values is the average
of the two central ones, rounded toward negative infinity.
-/

namespace SignalGuard

/-- Most values that one vote can take. -/
def voteCapacity : Nat := 8

namespace Vote

/-- Room for the values of one vote. -/
abbrev Buffer := Vector Int32 voteCapacity

namespace Buffer

def zero : Buffer := Vector.replicate voteCapacity 0

/-- The values in the first places. -/
def front (buf : Buffer) (count : Nat) : List Int32 := buf.toList.take count

/-- Overwrites the first places with the values. -/
def load (buf : Buffer) (values : List Int32) : Buffer :=
  buf.mapIdx fun place old => values[place]?.getD old

/-- Swaps the value at a place with the one before it until that is no larger. -/
def sink (buf : Buffer) : (place : Nat) → place < voteCapacity → Buffer
  | 0, _ => buf
  | place + 1, h =>
    have hplace := Nat.lt_of_succ_lt h
    if buf[place] > buf[place + 1] then sink (buf.swap place (place + 1)) place hplace else buf

/-- Sorts the first places; those behind them are left alone. -/
def sortFront (buf : Buffer) : (count : Nat) → count ≤ voteCapacity → Buffer
  | 0, _ => buf
  | count + 1, h => (buf.sortFront count (Nat.le_of_succ_le h)).sink count h

end Buffer

/-- Puts the values in nondecreasing order into the front of the buffer; `none`
when there are too many. -/
def sortInto? (values : List Int32) (buf : Buffer) : Option Buffer :=
  if h : values.length ≤ voteCapacity then
    some ((buf.load values).sortFront values.length h)
  else none

/-- The values in nondecreasing order; `none` when there are too many. -/
def sorted? (values : List Int32) : Option (List Int32) :=
  (sortInto? values .zero).map fun buf => buf.front values.length

/-- The middle value; `none` without values or with too many. -/
def median? (values : List Int32) : Option Int32 := do
  let ws ← sorted? values
  let upper ← ws[ws.length / 2]?
  if ws.length % 2 = 1 then
    return upper
  let lower ← ws[ws.length / 2 - 1]?
  narrow? ((lower.toInt + upper.toInt).fdiv 2)

end Vote

end SignalGuard
