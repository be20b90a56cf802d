import PaperGraph.Proofs.Paths
import PaperGraph.Store.Media

/-!
# Where media are found

A URL that names something is looked up below the directory of the media, at
whatever depth. A URL that names nothing, such as the empty one, stands for
that directory itself, and so it is looked up beside it.

* `Media.isStem_iff`: the names that consist of a stem and an extension;
* `Media.relative?_eq_some`: a URL never climbs and never starts at the root;
* `Tree.mem_below_of_mem_childFiles`: a file in a directory below another one is
  below that one;
* `Tree.hasMedia_iff`: a URL is found where a directory has a file for it.
-/

namespace PaperGraph

open Text

namespace Media

/-- The extension of a name starts at its last dot, which is not its first
    character. -/
theorem isStem_iff {stem name : String} : isStem stem name ↔
    stem ≠ "" ∧ ∃ extension, name = stem ++ "." ++ extension ∧ '.' ∉ extension.toList := by
  rw [isStem, Path.splitExtension]
  constructor
  · intro h
    split at h
    · next s after hsplit =>
      split at hsplit
      · next after' b before hcut =>
        obtain ⟨hname, hdot⟩ := cutAt?_eq_some_iff.1 hcut
        obtain ⟨rfl, _⟩ := Prod.mk.inj hsplit
        obtain rfl := of_decide_eq_true h
        refine ⟨by simp [← String.toList_inj], String.ofList after'.reverse, ?_,
          by simpa using hdot⟩
        rw [← String.toList_inj, ← List.reverse_inj, hname]
        simp
      · simp at hsplit
    · simp at h
  · rintro ⟨hne, extension, rfl, hdot⟩
    have hreverse : (stem ++ "." ++ extension).toList.reverse =
        extension.toList.reverse ++ '.' :: stem.toList.reverse := by simp
    rw [hreverse, cutAt?_append (by simpa using hdot)]
    have hstem : stem.toList.reverse ≠ [] := by simpa using hne
    obtain ⟨b, before, hstem⟩ := List.exists_cons_of_ne_nil hstem
    rw [hstem]
    simp only [← hstem, List.reverse_reverse, String.ofList_toList, decide_true]

/-- The path of a URL starts at the current directory and leads downwards. -/
theorem relative?_eq_some {url : String} {r : Path} (h : relative? url = some r) :
    ¬ r.isAbsolute ∧ ∀ piece ∈ r.steps, piece ≠ ['.', '.'] := by
  simp only [relative?, Option.ite_none_right_eq_some, Option.some.injEq] at h
  obtain ⟨hclimbs, rfl⟩ := h
  constructor
  · rw [Path.isAbsolute, String.toList_ofList, decide_eq_true_iff]
    intro hhead
    have := List.head?_dropWhile_not (fun c => decide (c = '/')) url.toList
    rw [hhead] at this
    simp at this
  · rintro piece hpiece rfl
    rw [Path.components_eq, List.all_append, Bool.and_eq_true] at hclimbs
    have := List.all_eq_true.1 hclimbs.2 _ (List.mem_map_of_mem hpiece)
    simp [Path.step] at this

/-- The directory in which a URL is looked up, and the stem that it is looked
    up by. -/
def sought? (media : Path) (url : String) : Option (Path × String) := do
  let relative ← relative? url
  let directory ← (media.join relative).parent?
  let name ← (media.join relative).fileName?
  return (directory, name)

theorem sought?_eq_some_iff {media directory : Path} {url name : String} :
    sought? media url = some (directory, name) ↔ ∃ r, relative? url = some r ∧
      (media.join r).parent? = some directory ∧ (media.join r).fileName? = some name := by
  simp [sought?, Option.bind_eq_some_iff]

end Media

namespace Location

variable {l k : Location} {way names : List String}

/-- A location below another one. -/
def descend (l : Location) (way : List String) : Location :=
  { l with names := l.names ++ way }

/-- Steps that never climb lead downwards. -/
theorem foldl_step_eq_descend {steps : List (List Char)}
    (hidle : ∀ piece ∈ steps, ¬ Path.isIdle piece) (hdown : ∀ piece ∈ steps, piece ≠ ['.', '.']) :
    steps.foldl step l = l.descend (steps.map String.ofList) := by
  induction steps generalizing l with
  | nil => simp [descend]
  | cons piece steps ih =>
    rw [List.forall_mem_cons] at hidle hdown
    rw [List.foldl_cons, ih hidle.2 hdown.2, step, if_neg hidle.1, if_neg hdown.1]
    simp [descend, child]

theorem namesBelow?_eq_some_iff :
    k.namesBelow? l = some names ↔ k = l.descend names := by
  obtain ⟨base, ks⟩ := k
  simp only [namesBelow?, Option.ite_none_right_eq_some, List.isPrefixOf_iff_prefix, descend,
    mk.injEq, Option.some.injEq]
  constructor
  · rintro ⟨⟨hbase, rest, rfl⟩, hnames⟩
    rw [List.drop_left] at hnames
    exact ⟨hbase, by rw [hnames]⟩
  · rintro ⟨hbase, rfl⟩
    exact ⟨⟨hbase, List.prefix_append _ _⟩, List.drop_left⟩

end Location

namespace Tree

variable {t : Tree} {l : Location} {way : List String} {media : Path} {url file : String}

/-- The files below a directory are those that the tree has there. -/
theorem mem_below_iff {names : List String} :
    names ∈ t.below l ↔ ∃ content, (l.descend names, Entry.file content) ∈ t.entries := by
  rw [below, List.mem_filterMap]
  constructor
  · rintro ⟨⟨k, entry⟩, hentry, hnames⟩
    cases entry with
    | directory => simp at hnames
    | file content =>
      obtain rfl := Location.namesBelow?_eq_some_iff.1 hnames
      exact ⟨content, hentry⟩
  · rintro ⟨content, hentry⟩
    exact ⟨_, hentry, Location.namesBelow?_eq_some_iff.2 rfl⟩

/-- There is a file at a location. -/
def HasFile (t : Tree) (l : Location) : Prop :=
  ∃ content, (l, Entry.file content) ∈ t.entries

theorem mem_childFiles_iff : file ∈ t.childFiles l ↔ t.HasFile (l.child file) := by
  rw [childFiles, List.mem_filterMap]
  constructor
  · rintro ⟨names, hnames, hfile⟩
    split at hfile
    · obtain rfl := Option.some.inj hfile
      exact mem_below_iff.1 hnames
    · simp at hfile
  · intro hfile
    exact ⟨[file], mem_below_iff.2 hfile, rfl⟩

theorem mem_below_of_mem_childFiles (h : file ∈ t.childFiles (l.descend way)) :
    way ++ [file] ∈ t.below l := by
  obtain ⟨content, hentry⟩ := mem_childFiles_iff.1 h
  exact mem_below_iff.2 ⟨content, by simpa [Location.descend, Location.child] using hentry⟩

/-- A URL is found if the directory in which it is looked up has a file whose
    name has the stem. -/
theorem hasMedia_iff : t.hasMedia media url ↔ ∃ directory name file,
    Media.sought? media url = some (directory, name) ∧
      t.locate directory = .ok directory.location ∧
      t.get? directory.location = some .directory ∧
      t.HasFile (directory.location.child file) ∧ Media.isStem name file := by
  constructor
  · intro h
    rw [hasMedia] at h
    split at h
    · simp at h
    · next r hr =>
      dsimp only at h
      split at h
      · next directory name hdirectory hname =>
        split at h
        · simp at h
        · next l hlocate =>
          obtain ⟨hentry, hany⟩ := of_decide_eq_true h
          obtain ⟨file, hfile, hstem⟩ := List.any_eq_true.1 hany
          obtain rfl := location_of_locate hlocate
          exact ⟨directory, name, file, Media.sought?_eq_some_iff.2 ⟨r, hr, hdirectory, hname⟩,
            hlocate, hentry, mem_childFiles_iff.1 hfile, hstem⟩
      · simp at h
  · rintro ⟨directory, name, file, hsought, hlocate, hentry, hfile, hstem⟩
    obtain ⟨r, hr, hdirectory, hname⟩ := Media.sought?_eq_some_iff.1 hsought
    simp only [hasMedia, hr, hdirectory, hname, hlocate, decide_eq_true_iff]
    exact ⟨hentry, List.any_eq_true.2 ⟨file, mem_childFiles_iff.2 hfile, hstem⟩⟩

/-- What a lookup has found: a file in the directory that the target lies in. -/
theorem exists_of_hasMedia (h : t.hasMedia media url) : ∃ r name extension,
    Media.relative? url = some r ∧ (media.join r).fileName? = some name ∧
      (name ≠ "" ∧ '.' ∉ extension.toList) ∧ name ++ "." ++ extension ∈ t.childFiles
        ((media.steps ++ r.steps).dropLast.foldl Location.step media.start) := by
  obtain ⟨directory, name, file, hsought, _, _, hfile, hstem⟩ := hasMedia_iff.1 h
  obtain ⟨r, hr, hdirectory, hname⟩ := Media.sought?_eq_some_iff.1 hsought
  obtain ⟨hne, extension, rfl, hdot⟩ := Media.isStem_iff.1 hstem
  obtain ⟨hsteps, hstart⟩ := Path.steps_parent? hdirectory
  have hr' := (Media.relative?_eq_some hr).1
  rw [← mem_childFiles_iff, Path.location_eq, hsteps, hstart, Path.steps_join hr',
    Path.start_join hr'] at hfile
  exact ⟨r, name, extension, hr, hname, ⟨hne, hdot⟩, hfile⟩

/-- Where a file for the path `r` of a URL was found, which has that name and
    that extension. -/
structure FindsMedia (t : Tree) (media r : Path) (name extension : String) : Prop where
  /-- The name is that of the target of the lookup. -/
  target : (media.join r).fileName? = some name
  /-- It is the stem of the file, whose extension starts at the last dot. -/
  stem : name ≠ "" ∧ '.' ∉ extension.toList
  /-- If the URL names something, it is that name, and the file lies below the
      directory of the media. -/
  below : r.fileName? ≠ none → r.fileName? = some name ∧
    ∃ way, way ++ [name ++ "." ++ extension] ∈ t.below media.location
  /-- If it names nothing, the name is that of the directory of the media, and
      the file lies beside that directory. -/
  beside : r.fileName? = none → media.fileName? = some name ∧
    ∃ directory : Location, media.location = directory.child name ∧
      name ++ "." ++ extension ∈ t.childFiles directory

/-- A URL that names something is found below the directory of the media and
    nowhere else. One that names nothing is found beside it. -/
theorem findsMedia_of_hasMedia (h : t.hasMedia media url) :
    ∃ r name extension, Media.relative? url = some r ∧ t.FindsMedia media r name extension := by
  obtain ⟨r, name, extension, hr, hname, hstem, hfile⟩ := exists_of_hasMedia h
  obtain ⟨hstart, hdown⟩ := Media.relative?_eq_some hr
  refine ⟨r, name, extension, hr, ⟨hname, hstem, fun hnamed => ?_, fun hnone => ?_⟩⟩
  · obtain ⟨last, hlast⟩ := Option.ne_none_iff_exists'.1 hnamed
    obtain ⟨piece, hpiece, _⟩ := Path.fileName?_eq_some_iff.1 hlast
    have hne : r.steps ≠ [] := fun hnil => by simp [hnil] at hpiece
    constructor
    · rw [← hname]
      exact Path.fileName?_congr (by rw [Path.steps_join hstart, List.getLast?_append, hpiece]; rfl)
    · rw [List.dropLast_append_of_ne_nil hne, List.foldl_append, ← Path.location_eq,
        Location.foldl_step_eq_descend (fun piece hpiece => Path.not_isIdle_of_mem_steps
          ((List.dropLast_sublist _).subset hpiece))
          fun piece hpiece => hdown piece ((List.dropLast_sublist _).subset hpiece)] at hfile
      exact ⟨_, mem_below_of_mem_childFiles hfile⟩
  · -- A last step would be a name, since no step climbs.
    have hnil : r.steps = [] := by
      cases hlast : r.steps.getLast? with
      | none => exact List.getLast?_eq_none_iff.1 hlast
      | some piece =>
        have hsome := Path.fileName?_eq_some_iff.2
          ⟨piece, hlast, hdown piece (List.mem_of_getLast? hlast), rfl⟩
        rw [hnone] at hsome
        simp at hsome
    have hmedia : media.fileName? = some name := by
      rw [← hname]
      exact Path.fileName?_congr (by rw [Path.steps_join hstart, hnil, List.append_nil])
    rw [hnil, List.append_nil] at hfile
    exact ⟨hmedia, _, Path.location_of_fileName? hmedia, hfile⟩

/-- A directory of media with one file. -/
def sampleMedia : Tree where
  entries := [({ names := ["data"] }, .directory), ({ names := ["data", "media"] }, .directory),
    ({ names := ["data", "media", "a.png"] }, .file (.text ""))]

/-- A figure that is found below the directory. -/
theorem findsMedia_sampleMedia : sampleMedia.hasMedia ⟨"data/media"⟩ "/./a" ∧
    ∃ r name extension, Media.relative? "/./a" = some r ∧
      sampleMedia.FindsMedia ⟨"data/media"⟩ r name extension := by
  have h : sampleMedia.hasMedia ⟨"data/media"⟩ "/./a" := by decide +kernel
  exact ⟨h, findsMedia_of_hasMedia h⟩

/-- An empty directory of media, with a file beside it. -/
def besideMedia : Tree where
  entries := [({ names := ["data"] }, .directory), ({ names := ["data", "media"] }, .directory),
    ({ names := ["data", "media.png"] }, .file (.text ""))]

/-- The empty URL is found, though there is no file below the directory. -/
theorem hasMedia_besideMedia : besideMedia.hasMedia ⟨"data/media"⟩ "" ∧
    besideMedia.below (Path.location ⟨"data/media"⟩) = [] := by
  constructor
  · decide +kernel
  · decide +kernel

end Tree

end PaperGraph
