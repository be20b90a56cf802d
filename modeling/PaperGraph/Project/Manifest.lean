import PaperGraph.Export.Publication
import PaperGraph.Files.Path
import PaperGraph.Text.Blank
import PaperGraph.Yaml.Lexer
import PaperGraph.Yaml.Meaning
import PaperGraph.Yaml.Node
import PaperGraph.Yaml.Writer

/-!
# Manifests

A manifest says where the papers of a project are, where its publication goes,
and which knowledge store it uses. It is a YAML mapping; what it does not tell
has a default, what it tells besides is passed over.

* `Manifest.parse?`: the manifest that a text denotes;
* `Manifest.write`: a manifest as a text.
-/

namespace PaperGraph

open Text

/-- What a project tells about itself. -/
structure Manifest where
  /-- The directory of the papers. -/
  papers : Path := ⟨"."⟩
  /-- Where the publication goes. -/
  exportPath : Path := ⟨"exports.ttl"⟩
  /-- The form of the publication. -/
  format : Format := .turtle
  /-- The name of the knowledge store. -/
  backend : String := "MinSKG"
  /-- The file of the knowledge store. -/
  store : Path := ⟨"minskg.nt"⟩
  /-- The directory of the media, if it is not that of the papers. -/
  media : Option Path := none
  /-- The time limit of requests in milliseconds, or 0 if there is none. -/
  timeout : Nat := 5000
  /-- Patterns of excluded paths. -/
  excludes : List String := []
deriving DecidableEq, Repr, Inhabited

namespace Manifest

/-- The time limit of requests, if there is one. -/
def limit? (m : Manifest) : Option Nat :=
  if 0 < m.timeout then some m.timeout else none

/-- The greatest time limit. -/
def greatestTimeout : Nat := Nat.pow 2 64 - 1

/-- A scalar as a text, whatever it could mean. -/
def textOf? : Yaml.Node → Option String
  | .scalar text _ _ => some text
  | _ => none

/-- The tag of YAML's own types. -/
def yamlTag (name : String) : String := "tag:yaml.org,2002:" ++ name

/-- A text or nothing, where nothing can be written by a word for it. -/
def optionOf? : Yaml.Node → Option (Option String)
  | .scalar text .plain (some tag) =>
    if tag = yamlTag "null" then if Yaml.isNull text.toList then some none else none
    else some (some text)
  | .scalar text .plain none =>
    if text = "" ∨ Yaml.isNull text.toList then some none else some (some text)
  | .scalar text _ _ => some (some text)
  | _ => none

/-- A natural number. -/
def naturalOf? : Yaml.Node → Option Nat
  | .scalar text style tag =>
    if style = .plain ∨ (style = .literal ∧ tag = some (yamlTag "int")) then
      Yaml.natural? greatestTimeout text.toList
    else none
  | _ => none

/-- The form of a publication: its name, or its name as a tag of nothing. -/
def formatOf? : Yaml.Node → Option Format
  | .scalar text style tag =>
    match tag.bind fun tag => stripStart? ['!'] tag.toList with
    | none => Format.ofName? text
    | some name =>
      if style = .plain ∧ (text = "" ∨ Yaml.isNull text.toList) then
        Format.ofName? (String.ofList name)
      else none
  | _ => none

/-- Texts, or none of them where nothing is written. -/
def textsOf? (d : Yaml.Document) : Yaml.Node → Option (List String)
  | .sequence items => items.mapM fun item => textOf? (d.resolve item)
  | .scalar "" .plain _ => some []
  | _ => none

/-- The keys of a manifest. -/
def keys : List String :=
  ["texdir", "exportpath", "export_format", "backend", "store", "media_root",
    "resolver_timeout_ms", "excludes"]

/-- The manifest with what an entry of it tells. -/
def set? (d : Yaml.Document) (m : Manifest) (key : String) (value : Yaml.Node) :
    Option Manifest :=
  match key with
  | "texdir" => (textOf? value).map fun text => { m with papers := ⟨text⟩ }
  | "exportpath" => (textOf? value).map fun text => { m with exportPath := ⟨text⟩ }
  | "export_format" => (formatOf? value).map fun format => { m with format }
  | "backend" => (textOf? value).map fun backend => { m with backend }
  | "store" => (textOf? value).map fun text => { m with store := ⟨text⟩ }
  | "media_root" => (optionOf? value).map fun text => { m with media := text.map Path.mk }
  | "resolver_timeout_ms" => (naturalOf? value).map fun timeout => { m with timeout }
  | "excludes" => (textsOf? d value).map fun excludes => { m with excludes }
  | _ => some m

/-- The manifest with what some entries tell. `seen` are the keys before them;
    no key of a manifest is told twice. -/
def setAll? (d : Yaml.Document) (m : Manifest) (seen : List String) :
    List (Yaml.Node × Yaml.Node) → Option Manifest
  | [] => some m
  | (key, value) :: rest => do
    let key ← textOf? (d.resolve key)
    if key ∈ keys ∧ key ∈ seen then none
    let m ← m.set? d key (d.resolve value)
    setAll? d m (key :: seen) rest

/-- The manifest that a document denotes. -/
def ofDocument? (d : Yaml.Document) : Option Manifest :=
  match d.root with
  | none => some {}
  | some (.scalar "" .plain _) => some {}
  | some (.mapping entries) => setAll? d {} [] entries
  | some _ => none

/-- The manifest that a text denotes. -/
def parse? (text : String) : Option Manifest :=
  if trim text.toList = [] then some {}
  else do
    let tokens ← Yaml.tokens? text.toList
    let document ← Yaml.document? tokens
    ofDocument? document

/-- An entry with a text. -/
def writeText (key text : String) : String :=
  key ++ ": " ++ Yaml.writeScalar text

/-- The entry with the patterns of excluded paths. -/
def writeExcludes : List String → String
  | [] => "excludes: []\n"
  | patterns => "excludes:\n" ++ String.join (patterns.map ("- " ++ Yaml.writeScalar ·))

/-- The manifest as a text. -/
def write (m : Manifest) : String :=
  writeText "texdir" m.papers.text ++ writeText "exportpath" m.exportPath.text ++
    writeText "export_format" m.format.name ++ writeText "backend" m.backend ++
    writeText "store" m.store.text ++
    (match m.media with
      | some media => writeText "media_root" media.text
      | none => "media_root: null\n") ++
    "resolver_timeout_ms: " ++ toString m.timeout ++ "\n" ++ writeExcludes m.excludes

end Manifest

end PaperGraph
