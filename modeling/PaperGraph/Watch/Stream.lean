import PaperGraph.Watch.Batch

/-!
# Streams of changes

A stream is what a watcher sends until it goes away: events, complaints of the
watcher, which are passed over, and between them, where it has nothing to send
for long enough, silence. A burst starts with the first event that touches a
source and lasts until the next silence.

* `Stream.nextBatch?`: the batch of the next burst, and what is left of the
  stream.
-/

namespace PaperGraph

/-- What a watcher sends. -/
inductive Notice where
  /-- An event. -/
  | event (e : Event)
  /-- A complaint. -/
  | complaint
  /-- Nothing, for long enough to end a burst. -/
  | silence
deriving DecidableEq, Repr, Inhabited

/-- A batch with what a notice tells. -/
def Batch.receive (b : Batch) : Notice → Batch
  | .event e => Batch.absorb b e
  | .complaint => b
  | .silence => b

/-- All that a watcher still sends before it goes away. -/
abbrev Stream := List Notice

namespace Stream

/-- A batch with the rest of its burst, and what is left of the stream. -/
def burst (b : Batch) : Stream → Batch × Stream
  | [] => (b, [])
  | .silence :: rest => (b, rest)
  | notice :: rest => burst (Batch.receive b notice) rest

/-- The batch of the next burst, and what is left of the stream. There is none
    when the watcher goes away before another source is touched. -/
def nextBatch? : Stream → Option Batch × Stream
  | [] => (none, [])
  | notice :: rest =>
    let b := Batch.receive {} notice
    if b.isEmpty then nextBatch? rest
    else
      let (b, rest) := burst b rest
      (some b, rest)

end Stream

end PaperGraph
