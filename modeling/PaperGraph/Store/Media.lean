import PaperGraph.Files.Tree

/-!
# Media

The image of a figure has to lie among the media of a project. Its URL is taken
for a path below the directory of the media, and any file there will do that
differs from it by an extension.
-/

namespace PaperGraph

open Text

namespace Media

/-- The path that a URL stands for, unless it climbs out of its directory. -/
def relative? (url : String) : Option Path :=
  let path : Path := ⟨String.ofList (url.toList.dropWhile (· = '/'))⟩
  if path.components.all (· ≠ .parent) then some path else none

/-- Whether a name consists of `stem` and an extension. -/
def isStem (stem name : String) : Bool :=
  match Path.splitExtension name with
  | (s, some _) => s = stem
  | (_, none) => false

end Media

/-- Whether a directory of media has a file for a URL. -/
def Tree.hasMedia (t : Tree) (media : Path) (url : String) : Bool :=
  match Media.relative? url with
  | none => false
  | some relative =>
    let target := media.join relative
    match target.parent?, target.fileName? with
    | some directory, some name =>
      match t.locate directory with
      | .error _ => false
      | .ok l => t.get? l = some .directory ∧ (t.childFiles l).any (Media.isStem name)
    | _, _ => false

end PaperGraph
