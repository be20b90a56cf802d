import PaperGraph.Files.Tree
import PaperGraph.Proofs.Steps

/-!
# Locations

Where a path leads does not depend on the tree: in every tree in which it leads
anywhere, its pieces are followed to the same location (`Path.location`). So an
operation on a path is one on a location.

* `Tree.location_of_locate`: a path leads to its location or nowhere;
* `Tree.Walkable`: the directories that have to be there for a path to lead
  somewhere; they are not lost as long as directories stay;
* `Tree.Target.Leads`: what the path of something that is made tells;
* `Tree.get?_set`: a change at a location is seen there, and nowhere else;
* `Tree.set_of_write`, `Tree.set_of_makeDirectory`: what an operation that
  succeeds has changed.
-/

namespace PaperGraph

open Text

/-- Where the location of a path starts. -/
def Path.start (p : Path) : Location where
  base := if p.isAbsolute then .root else .working 0

/-- The location that a path leads to, wherever it leads anywhere. -/
def Path.location (p : Path) : Location :=
  (splitAt '/' p.text.toList).foldl Location.step p.start

namespace Location

variable {l : Location} {pieces : List (List Char)}

theorem foldl_step_idle (h : ∀ piece ∈ pieces, Path.isIdle piece) :
    pieces.foldl step l = l := by
  induction pieces with
  | nil => rfl
  | cons piece pieces ih =>
    have hstep : l.step piece = l := by rw [step, if_pos (h piece List.mem_cons_self)]
    rw [List.foldl_cons, hstep]
    exact ih fun q hq => h q (List.mem_cons_of_mem _ hq)

/-- Empty pieces at the end lead nowhere. -/
theorem foldl_step_dropEnd :
    ((pieces.reverse.dropWhile (· = [])).reverse).foldl step l = pieces.foldl step l := by
  have hsplit : (pieces.reverse.dropWhile (· = [])).reverse ++
      (pieces.reverse.takeWhile (· = [])).reverse = pieces := by
    rw [← List.reverse_append, List.takeWhile_append_dropWhile, List.reverse_reverse]
  have hidle : ∀ m : Location, (pieces.reverse.takeWhile (· = [])).reverse.foldl step m = m :=
    fun m => foldl_step_idle fun piece hpiece => by
      have := List.all_eq_true.1 List.all_takeWhile piece (List.mem_reverse.1 hpiece)
      simp [Path.isIdle, of_decide_eq_true this]
  rw [← hidle (List.foldl step l _), ← List.foldl_append, hsplit]

theorem dropEnd_eq_self (h : pieces.getLast? ≠ some []) :
    (pieces.reverse.dropWhile (· = [])).reverse = pieces := by
  rw [← List.head?_reverse] at h
  cases hreverse : pieces.reverse with
  | nil => exact (List.reverse_eq_nil_iff.1 hreverse).symm
  | cons last before =>
    have hlast : last ≠ [] := fun he => h (by rw [hreverse, he, List.head?_cons])
    rw [List.dropWhile_cons_of_neg (by simpa using hlast), ← hreverse, List.reverse_reverse]

end Location

namespace Tree

variable {t t' : Tree} {p : Path} {k l : Location}

/-! ## Changes -/

theorem lookup_go (entry : Entry) (entries : List (Location × Entry)) :
    (set.go l entry entries).lookup k = if k = l then some entry else entries.lookup k := by
  induction entries with
  | nil =>
    rw [set.go, List.lookup_cons]
    by_cases hk : k = l
    · simp [hk]
    · simp [hk, beq_false_of_ne hk]
  | cons e entries ih =>
    obtain ⟨m, e⟩ := e
    rw [set.go]
    by_cases hm : m = l
    · -- The entry of `l` is replaced; the others keep their places.
      subst hm
      rw [if_pos rfl, List.lookup_cons, List.lookup_cons]
      by_cases hk : k = m
      · simp [hk]
      · simp [hk, beq_false_of_ne hk]
    · rw [if_neg hm, List.lookup_cons, List.lookup_cons, ih]
      by_cases hk : k = l
      · simp [hk, beq_false_of_ne (Ne.symm hm)]
      · simp [hk]

/-- A change at a location is seen there, and nowhere else, unless locations
    are told from there. -/
theorem get?_set {entry : Entry} (h : t.get? l ≠ some .directory) (k : Location) :
    (t.set l entry).get? k = if k = l then some entry else t.get? k := by
  have hnames : l.names ≠ [] := by
    intro hnames
    rw [get?, if_pos hnames] at h
    exact h rfl
  by_cases hk : k.names = []
  · have hne : k ≠ l := fun he => hnames (he ▸ hk)
    simp [get?, hk, hne]
  · simp only [get?, hk, if_false]
    exact lookup_go entry t.entries

/-! ## Ways -/

theorem needDirectory_eq_ok_iff {u : Unit} :
    t.needDirectory l = .ok u ↔ t.get? l = some .directory := by
  rw [needDirectory]
  split
  · next h => simp [h]
  · next h => simp [h]
  · next h => simp [h]

/-- There is a directory before each of the pieces that lead from a location,
    and none of them is too long for a name. -/
def Walkable (t : Tree) (l : Location) : List (List Char) → Prop
  | [] => True
  | piece :: rest =>
    t.get? l = some .directory ∧ ¬ longestName < utf8Size piece ∧ t.Walkable (l.step piece) rest

theorem walk_eq_ok_iff {pieces : List (List Char)} {m : Location} :
    t.walk l pieces = .ok m ↔ t.Walkable l pieces ∧ m = pieces.foldl Location.step l := by
  induction pieces generalizing l with
  | nil => simp [walk, Walkable, eq_comm]
  | cons piece rest ih =>
    rw [walk, bind_eq_ok_iff, Walkable, List.foldl_cons, and_assoc, and_assoc, ← ih]
    by_cases hlong : longestName < utf8Size piece
    · simp [hlong, bind, Except.bind]
    · simp [hlong, needDirectory_eq_ok_iff]

theorem walkable_concat {pieces : List (List Char)} {last : List Char} :
    t.Walkable l (pieces ++ [last]) ↔ t.Walkable l pieces ∧
      t.get? (pieces.foldl Location.step l) = some .directory ∧
      ¬ longestName < utf8Size last := by
  induction pieces generalizing l with
  | nil => simp [Walkable]
  | cons piece rest ih =>
    rw [List.cons_append, Walkable, Walkable, List.foldl_cons, ih]
    simp only [and_assoc]

/-- Ways stay as long as directories do. -/
theorem Walkable.mono (hkeep : ∀ k, t.get? k = some .directory → t'.get? k = some .directory)
    {pieces : List (List Char)} (h : t.Walkable l pieces) : t'.Walkable l pieces := by
  induction pieces generalizing l with
  | nil => trivial
  | cons piece rest ih =>
    obtain ⟨hdirectory, hlong, hrest⟩ := h
    exact ⟨hkeep _ hdirectory, hlong, ih hrest⟩

theorem pieces_eq_ok {steps : List (List Char)} (h : pieces p = .ok (l, steps)) :
    l = p.start ∧ steps = splitAt '/' p.text.toList := by
  simp only [pieces] at h
  split at h
  · simp at h
  · split at h
    · simp at h
    · split at h
      · simp at h
      · obtain ⟨rfl, rfl⟩ := Prod.mk.inj (Except.ok.inj h)
        exact ⟨rfl, rfl⟩

theorem location_of_locate (h : t.locate p = .ok l) : l = p.location := by
  obtain ⟨⟨start, steps⟩, hpieces, hwalk⟩ := bind_eq_ok_iff.1 h
  obtain ⟨rfl, rfl⟩ := pieces_eq_ok hpieces
  exact (walk_eq_ok_iff.1 hwalk).2

theorem locate_mono (hkeep : ∀ k, t.get? k = some .directory → t'.get? k = some .directory)
    (h : t.locate p = .ok l) : t'.locate p = .ok l := by
  obtain ⟨⟨start, steps⟩, hpieces, hwalk⟩ := bind_eq_ok_iff.1 h
  obtain ⟨hway, hl⟩ := walk_eq_ok_iff.1 hwalk
  exact bind_eq_ok_iff.2 ⟨_, hpieces, walk_eq_ok_iff.2 ⟨hway.mono hkeep, hl⟩⟩

/-! ## Operations -/

/-- What a path tells at which something can be made: its last piece, but for
    separators, is a name, and a directory leads there. -/
structure Target.Leads (target : Target) (t : Tree) (p : Path) (before : List (List Char))
    (last : List Char) : Prop where
  /-- The path can be followed. -/
  start : pieces p = .ok (p.start, splitAt '/' p.text.toList)
  /-- The last piece, after those before it. -/
  cut : (splitAt '/' p.text.toList).reverse.dropWhile (· = []) = last :: before
  /-- It is a step. -/
  busy : ¬ Path.isIdle last
  /-- It does not lead to the parent. -/
  down : last ≠ ['.', '.']
  /-- It is no longer than a name. -/
  short : ¬ longestName < utf8Size last
  /-- The pieces before it can be walked. -/
  way : t.Walkable p.start before.reverse
  /-- They lead to a directory. -/
  directory : t.get? (before.reverse.foldl Location.step p.start) = some .directory
  /-- It is there that something is made. -/
  location : target.location? = some ((before.reverse.foldl Location.step p.start).step last)
  /-- Whether separators follow. -/
  trailing : target.trailing = decide ((splitAt '/' p.text.toList).getLast? = some [])

theorem exists_leads_of_target {target : Target} (h : t.target p = .ok target)
    (hl : target.location? = some l) : ∃ before last, target.Leads t p before last := by
  obtain ⟨⟨start, steps⟩, hpieces, h⟩ := bind_eq_ok_iff.1 h
  obtain ⟨rfl, rfl⟩ := pieces_eq_ok hpieces
  simp only at h
  split at h
  · obtain rfl := Except.ok.inj h
    simp [Target.location?, Path.isIdle] at hl
  · next last before hlast =>
    obtain ⟨directory, hwalk, h⟩ := bind_eq_ok_iff.1 h
    obtain ⟨_, hdirectory, h⟩ := bind_eq_ok_iff.1 h
    by_cases hlong : longestName < utf8Size last
    · simp [hlong, bind, Except.bind] at h
    · simp only [if_neg hlong] at h
      obtain rfl := Except.ok.inj h
      obtain ⟨hway, rfl⟩ := walk_eq_ok_iff.1 hwalk
      have hstep := (Option.ite_none_left_eq_some.1 hl).1
      exact ⟨before, last, hpieces, hlast, fun hidle => hstep (.inl hidle),
        fun hparent => hstep (.inr hparent), hlong, hway, needDirectory_eq_ok_iff.1 hdirectory,
        if_neg hstep, rfl⟩

/-- Something that is made is made at the location of its path, and that is
    where the path leads to unless a separator follows. -/
theorem location_of_target {target : Target} (h : t.target p = .ok target)
    (hl : target.location? = some l) :
    l = p.location ∧ (target.trailing = false → t.locate p = .ok p.location) := by
  obtain ⟨before, last, hleads⟩ := exists_leads_of_target h hl
  obtain rfl := Option.some.inj (hl.symm.trans hleads.location)
  have hwhole : ((splitAt '/' p.text.toList).reverse.dropWhile (· = [])).reverse =
      before.reverse ++ [last] := by
    rw [hleads.cut, List.reverse_cons]
  have hlocation := calc
    (before.reverse.foldl Location.step p.start).step last
      = (before.reverse ++ [last]).foldl Location.step p.start := by
        rw [List.foldl_append, List.foldl_cons, List.foldl_nil]
    _ = p.location := by rw [← hwhole, Location.foldl_step_dropEnd, Path.location]
  refine ⟨hlocation, fun htrailing => ?_⟩
  -- Without a separator at the end the last piece is the last step.
  rw [hleads.trailing] at htrailing
  rw [Location.dropEnd_eq_self (of_decide_eq_false htrailing)] at hwhole
  refine bind_eq_ok_iff.2 ⟨_, hleads.start, walk_eq_ok_iff.2 ⟨?_, rfl⟩⟩
  rw [hwhole, walkable_concat]
  exact ⟨hleads.way, hleads.directory, hleads.short⟩

/-- A file is written at the location of its path, where the path leads to and
    where there was no directory. -/
theorem set_of_write {content : Content} (h : t.write p content = .ok t') :
    t' = t.set p.location (.file content) ∧ t.locate p = .ok p.location ∧
      t.get? p.location ≠ some .directory := by
  obtain ⟨target, htarget, h⟩ := bind_eq_ok_iff.1 h
  split at h
  · simp at h
  · next l hl =>
    obtain ⟨rfl, hlocate⟩ := location_of_target htarget hl
    by_cases hfree : target.trailing ∨ t.get? p.location = some .directory
    · simp [hfree] at h
    · rw [if_neg hfree] at h
      obtain ⟨htrailing, hfree⟩ := not_or.1 hfree
      exact ⟨(Except.ok.inj h).symm, hlocate (Bool.eq_false_iff.2 htrailing), hfree⟩

/-- A directory is made at the location of its path, where there was nothing. -/
theorem set_of_makeDirectory (h : t.makeDirectory p = .ok t') :
    t' = t.set p.location .directory ∧ t.get? p.location = none := by
  obtain ⟨target, htarget, h⟩ := bind_eq_ok_iff.1 h
  split at h
  · simp at h
  · next l hl =>
    obtain ⟨rfl, _⟩ := location_of_target htarget hl
    by_cases hfree : (t.get? p.location).isSome
    · simp [hfree] at h
    · rw [if_neg hfree] at h
      exact ⟨(Except.ok.inj h).symm, by simpa using hfree⟩

theorem read_eq_ok {text : String} (hlocate : t.locate p = .ok l)
    (hfile : t.get? l = some (.file (.text text))) : t.read p = .ok text := by
  have hstat : t.stat p = .ok (.file (.text text)) :=
    bind_eq_ok_iff.2 ⟨l, hlocate, by rw [hfile]⟩
  exact bind_eq_ok_iff.2 ⟨_, hstat, rfl⟩

theorem read_eq_ok_iff {text : String} : t.read p = .ok text ↔
    t.locate p = .ok p.location ∧ t.get? p.location = some (.file (.text text)) := by
  constructor
  · intro h
    obtain ⟨entry, hstat, hread⟩ := bind_eq_ok_iff.1 h
    obtain ⟨l, hlocate, hstat⟩ := bind_eq_ok_iff.1 hstat
    obtain rfl := location_of_locate hlocate
    split at hstat
    · next entry' hentry =>
      obtain rfl := Except.ok.inj hstat
      split at hread
      · simp at hread
      · obtain rfl := Except.ok.inj hread
        exact ⟨hlocate, hentry⟩
      · simp at hread
    · simp at hstat
  · rintro ⟨hlocate, hfile⟩
    exact read_eq_ok hlocate hfile

end Tree

end PaperGraph
