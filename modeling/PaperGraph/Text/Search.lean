/-!
# Looking for a text in a text

A search splits the text it looks through: `find?` answers with what stands
before the first occurrence and with the rest, which starts with what was
looked for, so that no position has to be counted.

* `stripStart?`, `stripEnd?`: the text without a given start or end;
* `find?`: the first occurrence; `occursIn`: whether there is one;
* `replaceAll`: every occurrence replaced, from left to right, what is put in
  not being looked at again;
* `cutAt?`, `splitAt`: cuts at the first, or at every, separator.
-/

namespace PaperGraph.Text

/-- What follows `start` in the text, if the text starts with it. -/
def stripStart? : (start text : List Char) → Option (List Char)
  | [], text => some text
  | _ :: _, [] => none
  | s :: start, c :: text => if s = c then stripStart? start text else none

/-- What stands before `tail` in the text, if the text ends with it. -/
def stripEnd? (tail text : List Char) : Option (List Char) :=
  (stripStart? tail.reverse text.reverse).map List.reverse

/-- The text split at the first occurrence of `needle`, with which the second
    part starts. -/
def find? (needle : List Char) : (text : List Char) → Option (List Char × List Char)
  | [] => if needle = [] then some ([], []) else none
  | c :: text =>
    if needle.isPrefixOf (c :: text) then some ([], c :: text)
    else (find? needle text).map fun (before, rest) => (c :: before, rest)

/-- Whether `needle` occurs in the text. -/
def occursIn (needle text : List Char) : Bool :=
  (find? needle text).isSome

theorem length_of_stripStart? {start text after : List Char}
    (h : stripStart? start text = some after) : after.length + start.length = text.length := by
  induction start generalizing text with
  | nil => simp_all [stripStart?]
  | cons s start ih =>
    cases text with
    | nil => simp [stripStart?] at h
    | cons c text =>
      simp only [stripStart?] at h
      split at h
      · simp only [List.length_cons]
        have := ih h
        omega
      · simp at h

/-- The text with every occurrence of `needle` replaced, from left to right.
    Nothing is replaced for an empty `needle`. -/
def replaceAll (needle replacement : List Char) : (text : List Char) → List Char
  | [] => []
  | c :: rest =>
    match _hs : stripStart? needle (c :: rest) with
    | some after =>
      if _hn : needle = [] then c :: rest
      else replacement ++ replaceAll needle replacement after
    | none => c :: replaceAll needle replacement rest
termination_by text => text.length
decreasing_by
  · have := length_of_stripStart? _hs
    have := List.length_pos_iff.2 _hn
    omega
  · simp

/-- The text before and after the first `separator`, if it has one. -/
def cutAt? (separator : Char) : (text : List Char) → Option (List Char × List Char)
  | [] => none
  | c :: text =>
    if c = separator then some ([], text)
    else (cutAt? separator text).map fun (before, after) => (c :: before, after)

/-- The parts of the text between the separators: one more than there are
    separators. -/
def splitAt (separator : Char) : (text : List Char) → List (List Char)
  | [] => [[]]
  | c :: text =>
    if c = separator then [] :: splitAt separator text
    else match splitAt separator text with
      | [] => [[c]]
      | part :: parts => (c :: part) :: parts

end PaperGraph.Text
