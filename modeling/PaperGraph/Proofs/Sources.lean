import PaperGraph.Project.Basic
import PaperGraph.Proofs.Media
import PaperGraph.Proofs.Writing

/-!
# Sources and their outputs

The output of a source loses the one ending that makes its path that of a
source. It is a source itself if its name has that ending once more
(`Path.IsDoubled`), and not otherwise. A tree in which only paths of no
sources were written has the sources that it had.

* `Path.isSource_output?_iff`: which outputs are sources;
* `Tree.SparesSources`: what is left of a tree by work that touches no source;
* `Tree.SparesSources.sources_eq`: its sources are found again, and no others.
-/

namespace PaperGraph

open Text

/-! ## Names -/

theorem sourceStem?_eq_some_iff {name stem : String} :
    sourceStem? name = some stem ↔ stem ≠ "" ∧ name = stem ++ sourceEnding := by
  rw [sourceStem?]
  constructor
  · intro h
    split at h
    · simp at h
    · simp at h
    · next c cs hstrip =>
      obtain rfl := Option.some.inj h
      refine ⟨by simp [← String.toList_inj], ?_⟩
      rw [← String.toList_inj, append_of_stripEnd? hstrip, String.toList_append,
        String.toList_ofList]
  · rintro ⟨hne, rfl⟩
    have hstem : stem.toList ≠ [] := by simpa using hne
    obtain ⟨c, cs, hstem⟩ := List.exists_cons_of_ne_nil hstem
    rw [String.toList_append, stripEnd?_append, hstem]
    simp only [← hstem, String.ofList_toList]

namespace Path

variable {p q : Path} {name stem : String}

theorem isName_of_fileName? (h : p.fileName? = some name) : IsName name := by
  obtain ⟨piece, hlast, hdown, rfl⟩ := fileName?_eq_some_iff.1 h
  have hmem := List.mem_of_getLast? hlast
  refine ⟨?_, ?_, ?_⟩
  · rw [String.toList_ofList]
    exact not_isIdle_of_mem_steps hmem
  · rwa [String.toList_ofList]
  · rw [String.toList_ofList]
    exact separator_not_mem (List.mem_filter.1 hmem).1

/-- What has more than two characters is neither idle nor a step to the parent. -/
theorem isName_of_length (h : 2 < name.toList.length) (hwhole : '/' ∉ name.toList) :
    IsName name where
  busy hidle := by
    rcases Bool.or_eq_true_iff.1 hidle with hnil | hdot
    · simp [of_decide_eq_true hnil] at h
    · simp [of_decide_eq_true hdot] at h
  down hparent := by simp [hparent] at h
  whole := hwhole

/-- The name of an output is one. -/
theorem isName_output (h : p.fileName? = some (stem ++ sourceEnding)) :
    IsName (stem ++ ".tex") := by
  refine isName_of_length ?_ fun hmem => ?_
  · simp
  · have hmem : '/' ∈ stem.toList := by simpa using hmem
    exact (isName_of_fileName? h).whole (by simp [hmem])

theorem fileName?_withFileName_output (h : p.fileName? = some (stem ++ sourceEnding)) :
    (p.withFileName (stem ++ ".tex")).fileName? = some (stem ++ ".tex") :=
  fileName?_withFileName (isName_output h)

/-- A source is told by its name. -/
theorem output?_eq_some_iff : p.output? = some q ↔
    ∃ stem, stem ≠ "" ∧ p.fileName? = some (stem ++ sourceEnding) ∧
      q = p.withFileName (stem ++ ".tex") := by
  cases hname : p.fileName? with
  | none => simp [output?, hname]
  | some name =>
    simp only [output?, hname, Option.bind_eq_bind, Option.bind_some, Option.pure_def,
      Option.bind_eq_some_iff, sourceStem?_eq_some_iff, Option.some.injEq, and_assoc,
      eq_comm (b := q)]

theorem isSource_iff : p.isSource ↔
    ∃ stem, stem ≠ "" ∧ p.fileName? = some (stem ++ sourceEnding) := by
  rw [isSource, Option.isSome_iff_exists]
  constructor
  · rintro ⟨q, hq⟩
    obtain ⟨stem, hne, hname, _⟩ := output?_eq_some_iff.1 hq
    exact ⟨stem, hne, hname⟩
  · rintro ⟨stem, hne, hname⟩
    exact ⟨_, output?_eq_some_iff.2 ⟨stem, hne, hname, rfl⟩⟩

/-- The name of the path ends twice as that of a source does. -/
def IsDoubled (p : Path) : Prop :=
  ∃ stem, stem ≠ "" ∧ p.fileName? = some (stem ++ ".rdf" ++ sourceEnding)

/-- An output is a source if the name of its own source ends twice. -/
theorem isSource_output?_iff (h : p.output? = some q) : q.isSource ↔ p.IsDoubled := by
  obtain ⟨stem, _, hname, rfl⟩ := output?_eq_some_iff.1 h
  rw [isSource_iff, IsDoubled, fileName?_withFileName_output hname, hname]
  refine exists_congr fun base => and_congr_right fun _ => ?_
  have hending : base ++ sourceEnding = base ++ ".rdf" ++ ".tex" := by
    rw [String.append_assoc]
    rfl
  rw [hending, Option.some.injEq, Option.some.injEq, String.append_left_inj,
    String.append_left_inj]

end Path

/-! ## Trees -/

/-- A location to which no path of a source leads: its last name is none of a
    source. -/
def Location.IsPlain (l : Location) : Prop :=
  ∃ front name, l.names = front ++ [name] ∧ Path.IsName name ∧ sourceStem? name = none

variable {t t₁ t' : Tree} {p q : Path} {l : Location}

theorem Path.isPlain_location {name : String} (h : p.fileName? = some name) (hp : ¬ p.isSource) :
    p.location.IsPlain := by
  refine ⟨_, name, congrArg Location.names (location_of_fileName? h), isName_of_fileName? h, ?_⟩
  cases hstem : sourceStem? name with
  | none => rfl
  | some stem =>
    obtain ⟨hne, rfl⟩ := sourceStem?_eq_some_iff.1 hstem
    exact absurd (isSource_iff.2 ⟨stem, hne, h⟩) hp

theorem Path.not_isPlain_location (hp : p.isSource) : ¬ p.location.IsPlain := by
  obtain ⟨stem, hne, hname⟩ := isSource_iff.1 hp
  rintro ⟨front, name, hnames, _, hnone⟩
  have hlast : (stem ++ sourceEnding) = name := by
    have hnames' := congrArg Location.names (location_of_fileName? hname)
    rw [hnames, Location.child] at hnames'
    exact (List.append_singleton_inj.1 hnames').2.symm
  rw [← hlast, sourceStem?_eq_some_iff.2 ⟨hne, rfl⟩] at hnone
  simp at hnone

namespace Tree

/-- Something is made only where a path leads to a name. -/
theorem fileName?_of_target {target : Target} (h : t.target p = .ok target)
    (hl : target.location? = some l) : ∃ name, p.fileName? = some name := by
  obtain ⟨before, last, hleads⟩ := exists_leads_of_target h hl
  refine ⟨_, Path.fileName?_eq_some_iff.2 ⟨last, ?_, hleads.down, rfl⟩⟩
  -- Only empty pieces follow the last one.
  have hempty : ((splitAt '/' p.text.toList).reverse.takeWhile (· = [])).filter
      (! Path.isIdle ·) = [] :=
    List.filter_eq_nil_iff.2 fun piece hpiece => by
      have hnil := List.all_eq_true.1 List.all_takeWhile piece hpiece
      simp [Path.isIdle, of_decide_eq_true hnil]
  rw [Path.steps, ← List.head?_reverse, ← List.filter_reverse,
    ← List.takeWhile_append_dropWhile (p := (· = [])) (l := (splitAt '/' p.text.toList).reverse),
    List.filter_append, hempty, hleads.cut, List.nil_append,
    List.filter_cons_of_pos (by simpa using hleads.busy), List.head?_cons]

/-- What holds of a tree and of what is left of it by work that touches no
    source. -/
structure SparesSources (t t' : Tree) : Prop where
  /-- Directories are still there. -/
  directories : ∀ l, t.get? l = some .directory → t'.get? l = some .directory
  /-- So are the files of sources. -/
  files : ∀ l content, ¬ l.IsPlain → t.get? l = some (.file content) →
    t'.get? l = some (.file content)
  /-- A search for sources that passes over directories and plain locations
      finds the same. -/
  entries : ∀ f : Location × Entry → Option Source, (∀ l, f (l, .directory) = none) →
    (∀ l content, l.IsPlain → f (l, .file content) = none) →
      t'.entries.filterMap f = t.entries.filterMap f

namespace SparesSources

theorem refl : t.SparesSources t where
  directories _ h := h
  files _ _ _ h := h
  entries _ _ _ := rfl

theorem trans (h : t.SparesSources t₁) (h' : t₁.SparesSources t') : t.SparesSources t' where
  directories l hl := h'.directories l (h.directories l hl)
  files l content hl hfile := h'.files l content hl (h.files l content hl hfile)
  entries f hdirectory hplain :=
    (h'.entries f hdirectory hplain).trans (h.entries f hdirectory hplain)

/-- A search does not see a change from what it passes over to what it passes
    over. -/
theorem filterMap_go {f : Location × Entry → Option Source} {entry : Entry}
    (hentry : f (l, entry) = none) {entries : List (Location × Entry)}
    (hold : ∀ old, entries.lookup l = some old → f (l, old) = none) :
    (set.go l entry entries).filterMap f = entries.filterMap f := by
  induction entries with
  | nil => simp [set.go, hentry]
  | cons e entries ih =>
    obtain ⟨k, old⟩ := e
    rw [set.go]
    by_cases hk : k = l
    · subst hk
      rw [if_pos rfl, List.filterMap_cons_none hentry,
        List.filterMap_cons_none (hold old List.lookup_cons_self)]
    · have hlookup : ∀ old, entries.lookup l = some old → f (l, old) = none := fun old hlast =>
        hold old (by rw [List.lookup_cons, beq_false_of_ne (Ne.symm hk)]; exact hlast)
      rw [if_neg hk, List.filterMap_cons, List.filterMap_cons, ih hlookup]

theorem of_write {text : String} (hq : ¬ q.isSource) (h : t.write q (.text text) = .ok t') :
    t.SparesSources t' := by
  obtain ⟨rfl, hlocate, hfree⟩ := set_of_write h
  obtain ⟨target, htarget, h⟩ := bind_eq_ok_iff.1 h
  have hplain : q.location.IsPlain := by
    cases hl : target.location? with
    | none => simp [hl] at h
    | some l =>
      obtain ⟨name, hname⟩ := fileName?_of_target htarget hl
      exact Path.isPlain_location hname hq
  refine ⟨fun l hl => ?_, fun l content hl hfile => ?_, fun f hdirectory hf => ?_⟩
  · have hne : l ≠ q.location := fun he => hfree (he ▸ hl)
    rw [get?_set hfree, if_neg hne, hl]
  · have hne : l ≠ q.location := fun he => hl (he ▸ hplain)
    rw [get?_set hfree, if_neg hne, hfile]
  · refine filterMap_go (hf _ _ hplain) fun old _ => ?_
    cases old with
    | directory => exact hdirectory _
    | file content => exact hf _ content hplain

theorem of_makeDirectory (h : t.makeDirectory q = .ok t') : t.SparesSources t' := by
  obtain ⟨rfl, hnone⟩ := set_of_makeDirectory h
  have hfree : t.get? q.location ≠ some .directory := by simp [hnone]
  have hstays {l : Location} {entry : Entry} (hl : t.get? l = some entry) :
      (t.set q.location .directory).get? l = some entry := by
    have hne : l ≠ q.location := fun he => by simp [he, hnone] at hl
    rw [get?_set hfree, if_neg hne, hl]
  refine ⟨fun l hl => hstays hl, fun l content _ hfile => hstays hfile, fun f hdirectory hf => ?_⟩
  refine filterMap_go (hdirectory _) fun old hold => ?_
  rw [get?] at hnone
  split at hnone
  · simp at hnone
  · simp [hnone] at hold

/-- Sources are spared as long as nothing is written at their paths. -/
theorem frame : Frame SparesSources (¬ ·.isSource) where
  refl _ := .refl
  trans _ _ _ := .trans
  write := .of_write
  make := .of_makeDirectory

end SparesSources

/-! ## Finding sources -/

theorem ofPath?_eq_none_iff : Source.ofPath? p = none ↔ ¬ p.isSource := by
  rw [Source.ofPath?, Option.map_eq_none_iff, Path.isSource, Option.not_isSome_iff_eq_none]

/-- The source to which some names lead from a directory, unless it is excluded. -/
def sourceAlong? (directory : Path) (excludes names : List String) : Option Source :=
  if (⟨"/".intercalate names⟩ : Path).isExcluded excludes then none
  else Source.ofPath? (names.foldl (fun p name => p.join ⟨name⟩) directory)

theorem sources_eq_of_directory {excludes : List String} (hl : t.locate p = .ok l)
    (hdirectory : t.get? l = some .directory) :
    t.sources p excludes = ((t.below l).filterMap (sourceAlong? p excludes)).mergeSort
      fun a b => (a.path.order b.path).isLE := by
  simp only [sources, filesAt, hl, hdirectory]
  rw [List.filterMap_filter, List.filterMap_map]
  congr 1
  refine congrArg (List.filterMap · _) (funext fun names => ?_)
  simp only [Function.comp_apply, sourceAlong?]
  cases Path.isExcluded _ excludes with
  | false => rfl
  | true => rfl

/-- No source is found at a plain location. -/
theorem sourceAlong?_eq_none {excludes names : List String}
    (h : (p.location.descend names).IsPlain) : sourceAlong? p excludes names = none := by
  have hsource : ¬ (names.foldl (fun p name => p.join ⟨name⟩) p).isSource := by
    intro hsource
    rcases names.eq_nil_or_concat with rfl | ⟨front, last, rfl⟩
    · exact Path.not_isPlain_location hsource (by simpa [Location.descend] using h)
    · -- The last name on the way is that of the path.
      obtain ⟨front', name, hnames, hname, hnone⟩ := h
      rw [Location.descend, List.concat_eq_append, ← List.append_assoc] at hnames
      obtain ⟨_, rfl⟩ := List.append_singleton_inj.1 hnames
      obtain ⟨stem, hne, hstem⟩ := Path.isSource_iff.1 hsource
      rw [List.concat_eq_append, List.foldl_append, List.foldl_cons, List.foldl_nil,
        Path.fileName?_join_name hname] at hstem
      rw [sourceStem?_eq_some_iff.2 ⟨hne, Option.some.inj hstem⟩] at hnone
      simp at hnone
  rw [sourceAlong?]
  split
  · rfl
  · exact ofPath?_eq_none_iff.2 hsource

/-- Wherever a tree has sources, work that touches none leaves these, and adds
    no others. -/
theorem SparesSources.sources_eq {excludes : List String} (h : t.SparesSources t')
    (hne : t.sources p excludes ≠ []) : t'.sources p excludes = t.sources p excludes := by
  have hfiles : t.filesAt p ≠ [] := fun hnil => hne (by simp [sources, hnil])
  cases hl : t.locate p with
  | error fault => simp [filesAt, hl] at hfiles
  | ok l =>
    obtain rfl := location_of_locate hl
    have hl' := locate_mono h.directories hl
    cases hentry : t.get? p.location with
    | none => simp [filesAt, hl, hentry] at hfiles
    | some entry =>
      cases entry with
      | directory =>
        rw [sources_eq_of_directory hl hentry, sources_eq_of_directory hl' (h.directories _ hentry)]
        congr 1
        rw [below, below, List.filterMap_filterMap, List.filterMap_filterMap]
        refine h.entries _ (fun _ => rfl) fun k content hplain => ?_
        cases hnames : k.namesBelow? p.location with
        | none => simp [hnames]
        | some names =>
          obtain rfl := Location.namesBelow?_eq_some_iff.1 hnames
          simp only [hnames, Option.bind_some]
          exact sourceAlong?_eq_none hplain
      | file content =>
        -- The only source is the file that the path leads to.
        have hsource : p.isSource := Decidable.byContradiction fun hp => hne <| by
          have hnone := ofPath?_eq_none_iff.2 hp
          simp only [sources, filesAt, hl, hentry]
          rw [List.filterMap_filter, List.filterMap_cons_none (by simp [hnone]), List.filterMap_nil,
            List.mergeSort_nil]
        have hentry' := h.files _ content (Path.not_isPlain_location hsource) hentry
        simp only [sources, filesAt, hl, hl', hentry, hentry']

/-- A source reads as it did. -/
theorem SparesSources.read {text : String} (h : t.SparesSources t') (hp : p.isSource)
    (hread : t.read p = .ok text) : t'.read p = .ok text := by
  obtain ⟨hlocate, hfile⟩ := read_eq_ok_iff.1 hread
  exact read_eq_ok (locate_mono h.directories hlocate)
    (h.files _ _ (Path.not_isPlain_location hp) hfile)

theorem output?_of_mem_sources {s : Source} {excludes : List String}
    (h : s ∈ t.sources p excludes) : s.path.output? = some s.output := by
  rw [sources, List.mem_mergeSort] at h
  obtain ⟨_, _, hs⟩ := List.mem_filterMap.1 h
  obtain ⟨output, houtput, rfl⟩ := Option.map_eq_some_iff.1 hs
  exact houtput

end Tree

end PaperGraph
