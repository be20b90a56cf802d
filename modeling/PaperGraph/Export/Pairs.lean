import PaperGraph.Contribution.Snippet
import PaperGraph.Text.Blank
import PaperGraph.Text.Search

/-!
# Lists of pairs

The last argument of an export lists pairs: `predicate=object`, separated by
commas, with blanks around the items and around the first equality sign. Empty
items are passed over; an item without an equality sign is malformed.
-/

namespace PaperGraph.Pairs

open Text

/-- The items of a list, blanks taken away and empty ones left out. -/
def items (list : List Char) : List (List Char) :=
  ((splitAt ',' list).map trim).filter (· ≠ [])

/-- The pair that an item stands for, or the item itself if it is malformed. -/
def readItem (item : List Char) : Except String (String × String) :=
  match cutAt? '=' item with
  | some (predicate, object) =>
    .ok (String.ofList (trim predicate), String.ofList (trim object))
  | none => .error (String.ofList item)

/-- The pairs of a list, or its first malformed item. -/
def parse (list : List Char) : Except String Facts :=
  (items list).mapM readItem

end PaperGraph.Pairs
