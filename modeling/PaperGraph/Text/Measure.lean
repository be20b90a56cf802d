/-!
# Sizes in bytes

Positions in a text are told in bytes of its UTF-8 form. `utf8Size` measures a
text and `splitAtByte?` goes the other way, from a position to the two parts.
-/

namespace PaperGraph.Text

/-- The number of bytes of the text in UTF-8. -/
def utf8Size (cs : List Char) : Nat :=
  cs.foldr (fun c size => c.utf8Size + size) 0

/-- The text before and after byte `offset`, if a character starts there or the
    text ends there. -/
def splitAtByte? : (offset : Nat) → (text : List Char) → Option (List Char × List Char)
  | 0, text => some ([], text)
  | _ + 1, [] => none
  | offset + 1, c :: text =>
    if c.utf8Size ≤ offset + 1 then
      (splitAtByte? (offset + 1 - c.utf8Size) text).map fun (before, after) => (c :: before, after)
    else none

@[simp]
theorem utf8Size_nil : utf8Size [] = 0 := rfl

@[simp]
theorem utf8Size_cons (c : Char) (cs : List Char) :
    utf8Size (c :: cs) = c.utf8Size + utf8Size cs := rfl

@[simp]
theorem utf8Size_append (a b : List Char) : utf8Size (a ++ b) = utf8Size a + utf8Size b := by
  induction a with
  | nil => simp
  | cons c a ih => simp [ih, Nat.add_assoc]

end PaperGraph.Text
