import PaperGraph.Command.Execution
import PaperGraph.Command.Help
import PaperGraph.Watch.Difference
import PaperGraph.Watch.Stream

/-!
# The program

The outer layer: it takes the arguments, reads the files that a command works
on into a tree, lets the command act, prints what it printed, and writes what it
changed.

A watch looks at the files every time that its quiet period has passed. Where
nothing differs from the last look, a burst of changes is over.

* `main`: the program.
-/

namespace PaperGraph.Program

/-- The text by which the operating system knows a location. -/
def name (l : Location) : String :=
  let start := match l.base with
    | .root => "/"
    | .working above => "./" ++ String.join (List.replicate above "../")
  start ++ "/".intercalate l.names

/-- A tree with what there is at a location and below it. -/
partial def gather (t : Tree) (l : Location) : IO Tree := do
  let place := (← IO.currentDir) / name l
  if ← place.isDir then
    let mut t := t.set l .directory
    for entry in ← place.readDir do
      t ← gather t (l.child entry.fileName)
    return t
  else if ← place.pathExists then
    return t.set l (.file (.ofBytes (← IO.FS.readBinFile place)))
  else return t

/-- A tree with what there is at a path and below it, and with the directories
    on the way. -/
def gatherAt (t : Tree) (p : Path) : IO Tree :=
  match Tree.pieces p with
  | .error _ => return t
  | .ok (start, pieces) => do
    let mut t := t
    let mut l := start
    for piece in pieces do
      let place := (← IO.currentDir) / name l
      if ← place.isDir then t := t.set l .directory
      l := l.step piece
    gather t l

/-- The files that a command on a project works on: its manifest, and what that
    names. -/
def gatherProject (o : ProjectOptions) : IO Tree := do
  let t ← gatherAt {} (Project.manifestPath o.root)
  match Project.load t o.root o.overrides with
  | .error _ => return t
  | .ok p => [p.papers, p.exportPath, p.store, p.media].foldlM gatherAt t

/-- Writes what differs between two trees. -/
def save (before after : Tree) : IO Unit :=
  after.entries.forM fun (l, entry) => do
    if before.get? l ≠ some entry then
      match entry with
      | .directory => IO.FS.createDirAll (name l)
      | .file (.text text) => IO.FS.writeFile (name l) text
      | .file (.binary bytes) => IO.FS.writeBinFile (name l) ⟨bytes⟩

/-- Lets a command act on the files. -/
def act {α : Type} (gathered : IO Tree) (action : Action α) : IO (Except Failure α) := do
  let tree ← gathered
  let workingDirectory : Path := ⟨(← IO.currentDir).toString⟩
  let (result, console) := action.run.run { tree, workingDirectory }
  IO.print console.out
  IO.eprint console.err
  save tree console.tree
  return result

/-- Lets a command act on the files, and tells if it fails. -/
def execute {α : Type} (gathered : IO Tree) (action : Action α) : IO UInt32 := do
  match ← act gathered action with
  | .ok _ => return 0
  | .error f =>
    IO.eprint f.report
    return 1

/-- An identifier for a publication: 32 hexadecimal digits at random. -/
def newIdentifier : IO String := do
  let bytes ← IO.getRandomBytes 16
  return String.ofList <| bytes.toList.flatMap fun b =>
    [Nat.digitChar (b.toNat / 16), Nat.digitChar (b.toNat % 16)]

/-- What a watcher sends until the first silence, looking again and again. The
    last look is given. -/
partial def listen (o : ProjectOptions) (p : Project) (quiet : Nat) (before : Tree) :
    IO (Stream × Tree) := do
  IO.sleep quiet.toUInt32
  let now ← gatherProject o
  match Event.between before now p.papers with
  | none => return ([.silence], now)
  | some e =>
    let (rest, last) ← listen o p quiet now
    return (.event e :: rest, last)

/-- Builds a project again after every burst of changes. -/
partial def watch (o : ProjectOptions) (p : Project) (s : MinSkg) (quiet : Nat) (before : Tree) :
    IO UInt32 := do
  let (stream, now) ← listen o p quiet before
  match (Stream.nextBatch? stream).1 with
  | none => watch o p s quiet now
  | some b =>
    let id ← newIdentifier
    discard <| act (return now) (Command.rebuild p s b id)
    watch o p s quiet now

/-- Builds a project, and then builds it again after every burst of changes. -/
def startWatch (o : ProjectOptions) (quiet : Nat) : IO UInt32 := do
  let tree ← gatherProject o
  let id ← newIdentifier
  match ← act (return tree) (Command.startWatch o id) with
  | .ok (p, s) => watch o p s quiet tree
  | .error f =>
    IO.eprint f.report
    return 1

/-- Does what the program is told to do. -/
def run : Command → IO UInt32
  | .build o => do execute (gatherProject o) (Command.runBuild o (← newIdentifier))
  | .check o strict => execute (gatherProject o) (Command.runCheck o strict)
  | .watch o quiet => startWatch o quiet
  | .inspect iri json o => execute (gatherProject o) (Command.runInspect iri json o)
  | .init root force => execute (gatherAt {} root) (Command.runInit root force)
  | .completions shell => do
    IO.print (Command.completionScript shell)
    return 0

end PaperGraph.Program

open PaperGraph in
/-- The program. -/
def main (arguments : List String) : IO UInt32 := do
  match CommandLine.parse arguments with
  | .ok line => Program.run line.command
  | .error f =>
    if f.isQuestion then
      IO.print f.message
      return 0
    else
      IO.eprint f.message
      return 2
