import PaperGraph.Text.Measure

/-!
# Slices

A part of a text can be told by the bytes at which it starts and stops. Not all
pairs of numbers tell one: the text may be too short, the stop may come before
the start, and either may lie within a character.

* `slice`, `sliceFrom`: the part of a text, or that there is none;
* `predecessor`: the byte before a byte, or that there is none.
-/

namespace PaperGraph.Text

/-- What can be wrong with positions in a text. -/
inductive Slip where
  /-- There is no part of the text between these bytes. -/
  | cut (start stop : Nat)
  /-- There is no part of the text from this byte on. -/
  | start (start : Nat)
  /-- There is no byte before the first one. -/
  | before
deriving DecidableEq, Repr

/-- The text from byte `start` on. -/
def sliceFrom (start : Nat) (text : List Char) : Except Slip (List Char) :=
  match splitAtByte? start text with
  | some (_, part) => .ok part
  | none => .error (.start start)

/-- The text from byte `start` up to byte `stop`. -/
def slice (start stop : Nat) (text : List Char) : Except Slip (List Char) :=
  if start ≤ stop then
    match splitAtByte? stop text with
    | some (before, _) => sliceFrom start before
    | none => .error (.cut start stop)
  else .error (.cut start stop)

/-- The byte before a byte. -/
def predecessor : (byte : Nat) → Except Slip Nat
  | 0 => .error .before
  | byte + 1 => .ok byte

end PaperGraph.Text
