import PaperGraph.Proofs.Orders
import PaperGraph.Proofs.ProperTrees

/-!
# Discovery

The sources of a project are told by its tree, and not by the order in which its entries are
gone through. The components of their paths are those of the directory and the names on the
way, so no two of them compare as equal, and there is one way to sort them. An output differs
from its source in the last component only, and that tells the name of the source: no two
sources have one output.

* `Path.components_eq_of_output?`, `Path.location_eq_of_output?`: an output tells its source;
* `Tree.Discovers`: what is to be found in a tree, and where its file is
  (`Tree.Discovers.location`);
* `Tree.mem_sources_iff`: it is what is found;
* `Tree.sources_pairwise`, `Tree.sources_perm`: how it is listed;
* `Tree.sources_exact`: all of this.
-/

namespace PaperGraph

open Text Std

/-! ## Outputs -/

namespace Path

variable {p p' q q' : Path}

/-- The components of an output tell those of its source. -/
theorem components_eq_of_output? (h : p.output? = some q) (h' : p'.output? = some q')
    (hq : q.components = q'.components) : p.components = p'.components := by
  obtain ⟨stem, -, hname, rfl⟩ := output?_eq_some_iff.1 h
  obtain ⟨stem', -, hname', rfl⟩ := output?_eq_some_iff.1 h'
  rw [components_withFileName hname (isName_output hname),
    components_withFileName hname' (isName_output hname')] at hq
  obtain ⟨hfront, hlast⟩ := List.append_singleton_inj.1 hq
  have hstem : stem = stem' := (String.append_left_inj _).1 (Component.name.inj hlast)
  rw [components_of_fileName? hname, components_of_fileName? hname', hfront, hstem]

/-- The location of an output tells that of its source. -/
theorem location_eq_of_output? (h : p.output? = some q) (h' : p'.output? = some q')
    (hq : q.location = q'.location) : p.location = p'.location := by
  obtain ⟨stem, -, hname, rfl⟩ := output?_eq_some_iff.1 h
  obtain ⟨stem', -, hname', rfl⟩ := output?_eq_some_iff.1 h'
  obtain ⟨l, hp, hl⟩ := exists_location_withFileName hname (isName_output hname)
  obtain ⟨l', hp', hl'⟩ := exists_location_withFileName hname' (isName_output hname')
  rw [hl, hl'] at hq
  obtain ⟨rfl, hlast⟩ := Location.child_inj.1 hq
  have hstem : stem = stem' := (String.append_left_inj _).1 hlast
  rw [hp, hp', hstem]

theorem location_along {names : List String} (h : ∀ name ∈ names, IsName name) :
    (p.along names).location = p.location.descend names := by
  induction names generalizing p with
  | nil => simp [along, Location.descend]
  | cons name names ih =>
    obtain ⟨hname, hnames⟩ := List.forall_mem_cons.1 h
    rw [along, List.foldl_cons, ← along, ih hnames, location_join_name hname]
    simp [Location.descend, Location.child]

end Path

namespace Tree

variable {t t' : Tree} {p q relative : Path} {excludes names : List String} {s : Source}

/-! ## Files -/

theorem IsProper.isName_of_hasFile {l : Location} (ht : t.IsProper)
    (h : t.HasFile (l.descend names)) : ∀ name ∈ names, Path.IsName name := by
  obtain ⟨content, hmem⟩ := h
  exact fun name hname => (ht.named _ hmem).2 name (List.mem_append_right _ hname)

/-- The files that are gone through are those of the tree at the path and below it. -/
theorem mem_filesAt_iff (ht : t.IsProper) : (q, relative) ∈ t.filesAt p ↔
    t.locate p = .ok p.location ∧ ∃ names, t.HasFile (p.location.descend names) ∧
      q = p.along names ∧ relative = .ofNames names := by
  cases hlocate : t.locate p with
  | error fault => simp [filesAt, hlocate]
  | ok l =>
    obtain rfl := location_of_locate hlocate
    have hself : p.location.descend [] = p.location := by simp [Location.descend]
    -- Nothing is below what is no directory.
    have hnil (hentry : t.get? p.location ≠ some .directory) {names : List String}
        (hfile : t.HasFile (p.location.descend names)) : names = [] := by
      obtain ⟨content, hmem⟩ := hfile
      exact Decidable.byContradiction fun hne => hentry (ht.directory_of_mem hne hmem)
    simp only [filesAt, hlocate, true_and]
    cases hentry : t.get? p.location with
    | none =>
      refine iff_of_false List.not_mem_nil ?_
      rintro ⟨names, hfile, -⟩
      obtain rfl := hnil (by simp [hentry]) hfile
      rw [hself, ht.hasFile_iff, hentry] at hfile
      simp at hfile
    | some entry =>
      cases entry with
      | file content =>
        rw [List.mem_singleton, Prod.mk.injEq]
        constructor
        · rintro ⟨rfl, rfl⟩
          exact ⟨[], by rw [hself, ht.hasFile_iff]; exact ⟨content, hentry⟩, rfl, rfl⟩
        · rintro ⟨names, hfile, rfl, rfl⟩
          obtain rfl := hnil (by simp [hentry]) hfile
          exact ⟨rfl, rfl⟩
      | directory =>
        simp only [List.mem_map, mem_below_iff, Prod.mk.injEq]
        exact exists_congr fun names => and_congr_right fun _ => and_congr eq_comm eq_comm

/-- What there is to be found at a path and below it: a file that has the name of a source,
    and to which the way from the path is not excluded. -/
structure Discovers (t : Tree) (p : Path) (excludes : List String) (names : List String)
    (stem : String) (s : Source) : Prop where
  /-- The path leads somewhere. -/
  leads : t.locate p = .ok p.location
  /-- From there the names lead to a file. -/
  file : t.HasFile (p.location.descend names)
  /-- They are no excluded path. -/
  kept : ¬ (Path.ofNames names).isExcluded excludes
  /-- The source is found along the names. -/
  path : s.path = p.along names
  /-- Its path ends with the name of one. -/
  name : s.path.fileName? = some (stem ++ sourceEnding)
  /-- There is something before the ending. -/
  nonempty : stem ≠ ""
  /-- Its output stands next to it. -/
  output : s.output = s.path.withFileName (stem ++ ".tex")

namespace Discovers

variable {stem : String}

theorem output? (h : t.Discovers p excludes names stem s) : s.path.output? = some s.output :=
  Path.output?_eq_some_iff.2 ⟨stem, h.nonempty, h.name, h.output⟩

/-- The path of the source leads to the file. -/
theorem location (ht : t.IsProper) (h : t.Discovers p excludes names stem s) :
    s.path.location = p.location.descend names := by
  rw [h.path, Path.location_along (ht.isName_of_hasFile h.file)]

end Discovers

theorem ofPath?_eq_some_iff :
    Source.ofPath? q = some s ↔ s.path = q ∧ q.output? = some s.output := by
  rw [Source.ofPath?, Option.map_eq_some_iff]
  constructor
  · rintro ⟨output, houtput, rfl⟩
    exact ⟨rfl, houtput⟩
  · rintro ⟨rfl, houtput⟩
    exact ⟨_, houtput, rfl⟩

/-- What is found is what there is to be found. -/
theorem mem_sources_iff (ht : t.IsProper) : s ∈ t.sources p excludes ↔
    ∃ names stem, t.Discovers p excludes names stem s := by
  rw [sources, List.mem_mergeSort, List.mem_filterMap]
  constructor
  · rintro ⟨⟨q, relative⟩, hmem, hs⟩
    obtain ⟨hmem, hkept⟩ := List.mem_filter.1 hmem
    obtain ⟨hlocate, names, hfile, rfl, rfl⟩ := (mem_filesAt_iff ht).1 hmem
    obtain ⟨hpath, houtput⟩ := ofPath?_eq_some_iff.1 hs
    rw [← hpath] at houtput
    obtain ⟨stem, hne, hname, houtput⟩ := Path.output?_eq_some_iff.1 houtput
    exact ⟨names, stem, hlocate, hfile, by simpa using hkept, hpath, hname, hne, houtput⟩
  · rintro ⟨names, stem, h⟩
    refine ⟨(s.path, .ofNames names), List.mem_filter.2 ⟨?_, by simpa using h.kept⟩, ?_⟩
    · exact (mem_filesAt_iff ht).2 ⟨h.leads, names, h.file, h.path, rfl⟩
    · exact ofPath?_eq_some_iff.2 ⟨rfl, h.output?⟩

/-! ## The list -/

theorem IsProper.nodup_below (ht : t.IsProper) (l : Location) : (t.below l).Nodup := by
  rw [below, List.Nodup, List.pairwise_filterMap]
  refine (List.pairwise_map.1 ht.distinct).imp fun {e e'} hne names hnames names' hnames' he => ?_
  obtain ⟨k, entry⟩ := e
  obtain ⟨k', entry'⟩ := e'
  cases entry with
  | directory => simp at hnames
  | file content =>
    cases entry' with
    | directory => simp at hnames'
    | file content' =>
      obtain rfl := Location.namesBelow?_eq_some_iff.1 hnames
      obtain rfl := Location.namesBelow?_eq_some_iff.1 hnames'
      exact hne (by rw [he])

/-- The path of a file that is gone through has other components than all others. -/
theorem IsProper.pairwise_filesAt (ht : t.IsProper) (p : Path) :
    (t.filesAt p).Pairwise fun a b => a.1.components ≠ b.1.components := by
  rw [filesAt]
  split
  · exact List.Pairwise.nil
  · split
    · exact List.Pairwise.nil
    · exact List.pairwise_singleton _ _
    · rw [List.pairwise_map]
      refine (ht.nodup_below _).imp_of_mem fun {names names'} h h' hne he => hne ?_
      have hnames := ht.isName_of_hasFile (mem_below_iff.1 h)
      have hnames' := ht.isName_of_hasFile (mem_below_iff.1 h')
      have hsame : p.components ++ names.map .name = p.components ++ names'.map .name := by
        rw [← Path.components_along hnames, ← Path.components_along hnames']
        exact he
      exact List.map_injective_iff.2 (fun _ _ => Path.Component.name.inj)
        (List.append_cancel_left hsame)

/-- The sources of a tree are listed in a strict order. -/
theorem sources_pairwise (ht : t.IsProper) (p : Path) (excludes : List String) :
    (t.sources p excludes).Pairwise fun a b => a.path.order b.path = .lt := by
  have : TransCmp fun a b : Source => a.path.order b.path := transCmp_on Source.path
  have hsorted : (t.sources p excludes).Pairwise fun a b => (a.path.order b.path).isLE :=
    pairwise_mergeSort_isLE _
  have hdistinct : (t.sources p excludes).Pairwise
      fun a b => a.path.components ≠ b.path.components := by
    rw [sources, (List.mergeSort_perm _ _).pairwise_iff fun h => h.symm, List.pairwise_filterMap]
    refine ((ht.pairwise_filesAt p).sublist List.filter_sublist).imp fun h a ha b hb => ?_
    obtain ⟨ha, -⟩ := ofPath?_eq_some_iff.1 ha
    obtain ⟨hb, -⟩ := ofPath?_eq_some_iff.1 hb
    rwa [ha, hb]
  refine (hsorted.and hdistinct).imp fun {a b} hboth => ?_
  obtain ⟨hle, hne⟩ := hboth
  exact (Ordering.isLE_iff_eq_lt_or_eq_eq.1 hle).resolve_right fun he =>
    hne (Path.order_eq_eq_iff.1 he)

theorem Discovers.perm {stem : String} (h : t.Discovers p excludes names stem s)
    (ht : t.IsProper) (hperm : t'.entries.Perm t.entries) :
    t'.Discovers p excludes names stem s := by
  refine { h with leads := locate_mono (fun k hk => ?_) h.leads, file := ?_ }
  · rw [ht.get?_perm hperm, hk]
  · obtain ⟨content, hmem⟩ := h.file
    exact ⟨content, hperm.mem_iff.2 hmem⟩

/-- It does not matter in which order the entries of a tree are gone through. -/
theorem sources_perm (ht : t.IsProper) (h : t'.entries.Perm t.entries) :
    t'.sources p excludes = t.sources p excludes := by
  have ht' := ht.perm h
  have : TransCmp fun a b : Source => a.path.order b.path := transCmp_on Source.path
  refine eq_of_pairwise_lt (sources_pairwise ht' p excludes) (sources_pairwise ht p excludes)
    fun s => ?_
  rw [mem_sources_iff ht', mem_sources_iff ht]
  constructor
  · rintro ⟨names, stem, hs⟩
    exact ⟨names, stem, hs.perm ht' h.symm⟩
  · rintro ⟨names, stem, hs⟩
    exact ⟨names, stem, hs.perm ht h⟩

/-! ## Their outputs -/

/-- Two sources do not have the same output, neither by its path nor by its place. -/
theorem Discovers.output_ne {names' : List String} {stem stem' : String} {s' : Source}
    (ht : t.IsProper) (h : t.Discovers p excludes names stem s)
    (h' : t.Discovers p excludes names' stem' s')
    (hne : s.path.components ≠ s'.path.components) :
    s.output.components ≠ s'.output.components ∧ s.output.location ≠ s'.output.location := by
  constructor
  · intro houtput
    exact hne (Path.components_eq_of_output? h.output? h'.output? houtput)
  · intro houtput
    have hlocation := Path.location_eq_of_output? h.output? h'.output? houtput
    rw [h.location ht, h'.location ht] at hlocation
    rw [h.path, h'.path, Location.descend_injective hlocation] at hne
    exact hne rfl

/-- Found are the files at a path and below it that have the names of sources and are not
    excluded, in the strict order of the components of their paths, in whatever order the
    entries of the tree are gone through. No output has two sources, neither by its path nor
    by its place. -/
theorem sources_exact (ht : t.IsProper) (p : Path) (excludes : List String) :
    (∀ s, s ∈ t.sources p excludes ↔ ∃ names stem, t.Discovers p excludes names stem s) ∧
    (t.sources p excludes).Pairwise (fun a b => a.path.order b.path = .lt ∧
      a.output.components ≠ b.output.components ∧ a.output.location ≠ b.output.location) ∧
    ∀ t' : Tree, t'.entries.Perm t.entries →
      t'.sources p excludes = t.sources p excludes := by
  refine ⟨fun s => mem_sources_iff ht, ?_, fun t' h => sources_perm ht h⟩
  refine (sources_pairwise ht p excludes).imp_of_mem fun {a b} ha hb hlt => ⟨hlt, ?_⟩
  obtain ⟨names, stem, ha⟩ := (mem_sources_iff ht).1 ha
  obtain ⟨names', stem', hb⟩ := (mem_sources_iff ht).1 hb
  refine ha.output_ne ht hb fun he => ?_
  rw [Path.order_eq_eq_iff.2 he] at hlt
  simp at hlt

/-- A tree with two papers and a draft. -/
def draftedTree : Tree where
  entries := [
    ({ names := ["paper"] }, .directory),
    ({ names := ["paper", "main.rdf.tex"] }, .file (.text "")),
    ({ names := ["paper", "drafts"] }, .directory),
    ({ names := ["paper", "drafts", "old.rdf.tex"] }, .file (.text "")),
    ({ names := ["paper", "b.rdf.tex"] }, .file (.text "")),
    ({ names := ["paper", "notes.md"] }, .file (.text ""))]

/-- The papers are found and sorted, also if the entries are gone through from the end. -/
theorem sources_draftedTree :
    draftedTree.IsProper ∧
      Tree.sources ⟨draftedTree.entries.reverse⟩ ⟨"paper"⟩ ["**/drafts/*"] =
        [⟨⟨"paper/b.rdf.tex"⟩, ⟨"paper/b.tex"⟩⟩,
          ⟨⟨"paper/main.rdf.tex"⟩, ⟨"paper/main.tex"⟩⟩] := by
  have ht : draftedTree.IsProper := by decide +kernel
  obtain ⟨-, hpairwise, hperm⟩ := sources_exact ht ⟨"paper"⟩ ["**/drafts/*"]
  have hfound : (draftedTree.below { names := ["paper"] }).filterMap
        (sourceAlong? ⟨"paper"⟩ ["**/drafts/*"]) =
      [⟨⟨"paper/main.rdf.tex"⟩, ⟨"paper/main.tex"⟩⟩,
        ⟨⟨"paper/b.rdf.tex"⟩, ⟨"paper/b.tex"⟩⟩] := by
    decide +kernel
  refine ⟨ht, (hperm ⟨_⟩ (List.reverse_perm _)).trans ?_⟩
  have : TransCmp fun a b : Source => a.path.order b.path := transCmp_on Source.path
  refine eq_of_pairwise_lt (hpairwise.imp And.left) (by decide +kernel) fun s => ?_
  rw [sources_eq_of_directory (l := { names := ["paper"] }) rfl rfl, List.mem_mergeSort, hfound]
  simp [or_comm]

end Tree

end PaperGraph
