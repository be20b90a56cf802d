import PaperGraph.Command.Execution
import PaperGraph.Proofs.Delivery
import PaperGraph.Proofs.Discovery
import PaperGraph.Proofs.Joins
import PaperGraph.Proofs.Stability

/-!
# New manifests find the same sources

A project without a manifest is searched from its own directory on. The manifest that it gets
names the directory of its papers, seen from that of the project, if all papers lie in one;
from then on the project is searched from there. The papers are told by other spellings of
their paths then. But the components of these stay, and so do the order of the papers and the
components of their outputs. The new spelling leaves out the dot in between, so what was found
by the old one is found by it; and what lies below the directory of the papers lay below that
of the project.

* `Source.trace`: what the components tell of a source;
* `Tree.locate_of_hasDirectory`, `Tree.map_trace_sources`: directories and sources in other
  spellings;
* `Tree.sources_of_write`: writing what is no source changes no sources;
* `Project.components_of_directoryOf?`, `Project.locate_join_directoryOf?`: the directory of a
  source, seen from that of its project;
* `Project.map_trace_manifestFor`: the directory that a new manifest tells has the sources;
* `Command.on_runInit`, `Command.load_of_runInit`: what the command leaves, and what is
  discovered then.
-/

namespace PaperGraph

open Text Std

/-! ## Directories in other spellings -/

theorem Text.utf8Size_le_of_sublist {text text' : List Char} (h : text.Sublist text') :
    utf8Size text ≤ utf8Size text' := by
  induction h with
  | slnil => exact Nat.le_refl _
  | cons c _ ih =>
    rw [utf8Size_cons]
    omega
  | cons_cons c _ ih =>
    rw [utf8Size_cons, utf8Size_cons]
    omega

/-- What the components tell of a source. -/
def Source.trace (s : Source) : List Path.Component × List Path.Component :=
  (s.path.components, s.output.components)

theorem Source.trace_eq {s s' : Source} (hs : s.path.output? = some s.output)
    (hs' : s'.path.output? = some s'.output) (h : s.path.components = s'.path.components) :
    s.trace = s'.trace := by
  obtain ⟨stem, -, hname, houtput⟩ := Path.output?_eq_some_iff.1 hs
  obtain ⟨stem', -, hname', houtput'⟩ := Path.output?_eq_some_iff.1 hs'
  have hsame : s.path.fileName? = s'.path.fileName? := by rw [Path.fileName?, Path.fileName?, h]
  have hstem : stem = stem' := by
    rw [hname, hname'] at hsame
    exact (String.append_left_inj _).1 (Option.some.inj hsame)
  rw [trace, trace, houtput, houtput',
    Path.components_withFileName hname (Path.isName_output hname),
    Path.components_withFileName hname' (Path.isName_output hname'), h, hstem]

namespace Tree

variable {t t' : Tree} {p q root : Path} {excludes names names' front : List String}
  {stem last : String} {s : Source}

theorem pieces_eq_ok_iff : pieces p = .ok (p.start, splitAt '/' p.text.toList) ↔
    p.text.toList ≠ [] ∧ '\x00' ∉ p.text.toList ∧ utf8Size p.text.toList ≤ longestPath := by
  rw [pieces]
  by_cases hnil : p.text.toList = []
  · simp [hnil]
  · by_cases hnul : '\x00' ∈ p.text.toList
    · simp [hnil, hnul]
    · by_cases hlong : longestPath < utf8Size p.text.toList
      · simp [hnil, hnul, hlong]
      · simp [hnil, hnul, hlong, Path.start, Nat.not_lt.1 hlong]

/-- A directory is found by another spelling of its path as well, if that leaves something out. -/
theorem locate_of_hasDirectory (hq : t.hasDirectory q) (hcomponents : p.components = q.components)
    (hne : p.text ≠ "") (htext : p.text.toList.Sublist q.text.toList) :
    t.locate p = .ok p.location := by
  obtain ⟨hanchor, hsteps⟩ := Path.anchor_and_steps_of_components hcomponents
  have hreaches : t.Reaches p :=
    (reaches_of_hasDirectory hq).congr hsteps (Path.start_congr hanchor)
  obtain ⟨⟨start, steps⟩, hpieces, -⟩ := bind_eq_ok_iff.1 (hasDirectory_iff.1 hq).1
  obtain ⟨rfl, rfl⟩ := pieces_eq_ok hpieces
  obtain ⟨-, hnul, hlong⟩ := pieces_eq_ok_iff.1 hpieces
  refine bind_eq_ok_iff.2 ⟨_, pieces_eq_ok_iff.2 ⟨by simpa using hne, fun hmem =>
    hnul (htext.subset hmem), (utf8Size_le_of_sublist htext).trans hlong⟩, ?_⟩
  refine walk_eq_ok_iff.2 ⟨.of_filter hreaches.way ?_, rfl⟩
  rw [← Path.steps, ← Path.location_eq]
  exact hreaches.directory

/-! ## Sources in other spellings -/

/-- The same file is found from another directory, under other names. -/
theorem Discovers.respell (h : t.Discovers p [] names stem s) (hq : t.locate q = .ok q.location)
    (hlocation : q.location.descend names' = p.location.descend names)
    (hcomponents : (q.along names').components = s.path.components) :
    ∃ s', t.Discovers q [] names' stem s' ∧ s'.trace = s.trace := by
  have hname : (q.along names').fileName? = some (stem ++ sourceEnding) := by
    rw [Path.fileName?, hcomponents]
    exact h.name
  let s' : Source :=
    { path := q.along names', output := (q.along names').withFileName (stem ++ ".tex") }
  have hs' : t.Discovers q [] names' stem s' :=
    { leads := hq
      file := hlocation ▸ h.file
      kept := by simp [Path.isExcluded]
      path := rfl
      name := hname
      nonempty := h.nonempty
      output := rfl }
  exact ⟨s', hs', Source.trace_eq hs'.output? h.output? hcomponents⟩

/-- From a directory into which all sources lie the same ones are found. -/
theorem map_trace_sources (ht : t.IsProper) (hp : t.locate p = .ok p.location)
    (hq : t.locate q = .ok q.location) (hfront : ∀ name ∈ front, Path.IsName name)
    (hcomponents : p.components = q.components ++ front.map .name)
    (hall : ∀ names stem s, t.Discovers q [] names stem s → front <+: names) :
    (t.sources p []).map Source.trace = (t.sources q []).map Source.trace := by
  have hlocation (names : List String) :
      p.location.descend names = q.location.descend (front ++ names) := by
    rw [Path.location_of_components (hcomponents.trans (Path.components_along hfront).symm),
      Path.location_along hfront]
    simp [Location.descend]
  have : TransCmp fun a b : List Path.Component × List Path.Component =>
    List.compareLex Path.Component.order a.1 b.1 := transCmp_on Prod.fst
  have hsorted (p : Path) : ((t.sources p []).map Source.trace).Pairwise fun a b =>
      List.compareLex Path.Component.order a.1 b.1 = .lt :=
    List.pairwise_map.2 ((sources_pairwise ht p []).imp fun h => (Path.order_eq _ _).symm.trans h)
  refine eq_of_pairwise_lt (hsorted p) (hsorted q) fun a => ?_
  rw [List.mem_map, List.mem_map]
  constructor
  · rintro ⟨s, hs, rfl⟩
    obtain ⟨names, stem, hs⟩ := (mem_sources_iff ht).1 hs
    have hnames := ht.isName_of_hasFile hs.file
    obtain ⟨s', hs', htrace⟩ := hs.respell hq (hlocation names).symm (by
      rw [hs.path, Path.components_along hnames, hcomponents,
        Path.components_along (List.forall_mem_append.2 ⟨hfront, hnames⟩), List.map_append,
        List.append_assoc])
    exact ⟨s', (mem_sources_iff ht).2 ⟨_, stem, hs'⟩, htrace⟩
  · rintro ⟨s, hs, rfl⟩
    obtain ⟨names, stem, hs⟩ := (mem_sources_iff ht).1 hs
    obtain ⟨rest, rfl⟩ := hall names stem s hs
    obtain ⟨-, hrest⟩ := List.forall_mem_append.1 (ht.isName_of_hasFile hs.file)
    obtain ⟨s', hs', htrace⟩ := hs.respell hp (hlocation rest) (by
      rw [hs.path, Path.components_along hrest, hcomponents,
        Path.components_along (ht.isName_of_hasFile hs.file), List.map_append,
        List.append_assoc])
    exact ⟨s', (mem_sources_iff ht).2 ⟨_, stem, hs'⟩, htrace⟩

/-- Writing what is no source changes no sources. -/
theorem sources_of_write {name text : String} (ht : t.IsProper) (hname : q.fileName? = some name)
    (hq : ¬ q.isSource) (h : t.write q (.text text) = .ok t') (p : Path)
    (excludes : List String) : t'.sources p excludes = t.sources p excludes := by
  have ht' := ht.of_write h
  obtain ⟨rfl, -, hfree⟩ := set_of_write h
  have hsame := sameDirectories_set hfree (.text text)
  have : TransCmp fun a b : Source => a.path.order b.path := transCmp_on Source.path
  refine eq_of_pairwise_lt (sources_pairwise ht' p excludes) (sources_pairwise ht p excludes)
    fun s => ?_
  rw [mem_sources_iff ht', mem_sources_iff ht]
  refine exists_congr fun names => exists_congr fun stem => ⟨fun hs => ?_, fun hs => ?_⟩
  · refine { hs with leads := locate_mono (fun k => (hsame k).1) hs.leads, file := ?_ }
    refine (hasFile_set.1 hs.file).resolve_left fun he => ?_
    -- No path of a source leads to the file that is written.
    have hsource : s.path.isSource := by
      rw [Path.isSource, hs.output?]
      rfl
    rw [← hs.location ht'] at he
    exact Path.not_isPlain_location hsource (he ▸ Path.isPlain_location hname hq)
  · exact { hs with
      leads := locate_mono (fun k => (hsame k).2) hs.leads
      file := hasFile_set.2 (.inr hs.file) }

end Tree

/-! ## Directories of sources -/

namespace Project

variable {t t' : Tree} {root d : Path} {names front : List String} {stem last : String} {s : Source}

/-- The directory of a source, seen from that of a project. -/
def directoryOf? (root : Path) (s : Source) : Option Path :=
  s.path.parent?.map fun parent => (parent.relativeTo? root).getD parent

/-- Each directory in which there are sources can be opened at its path: a walk finds in a
    directory what is there when it is opened. -/
def OpensDirectories (p : Project) (t : Tree) : Prop :=
  ∀ s ∈ p.sources, ∀ q, s.path.parent? = some q → t.hasDirectory q

theorem lists_sourceDirectories (p : Project) :
    p.sourceDirectories.Lists (p.sources.filterMap (directoryOf? p.root)) :=
  PathSet.Lists.empty.insertAll _

/-- Together with the directory of the project it has the components of that of the source. -/
theorem components_of_directoryOf? (hnames : ∀ name ∈ front ++ [last], Path.IsName name)
    (hs : s.path = (root.join ⟨"."⟩).along (front ++ [last])) (hd : directoryOf? root s = some d) :
    root.components ++ d.components = (root.join ⟨"."⟩).components ++ front.map .name := by
  obtain ⟨parent, hparent, rfl⟩ := Option.map_eq_some_iff.1 hd
  have hcomponents : parent.components = (root.join ⟨"."⟩).components ++ front.map .name := by
    rw [Path.components_parent? hparent, hs, Path.components_along hnames, List.map_append,
      ← List.append_assoc, List.map_singleton, List.dropLast_concat]
  have hprefix : root.components <+: parent.components := by
    rw [hcomponents]
    exact (Path.prefix_join_current root).trans (List.prefix_append _ _)
  obtain ⟨e, he⟩ := Path.exists_relativeTo? hprefix
  rw [he, Option.getD_some, ← Path.components_of_relativeTo? he, hcomponents]

/-- Seen from the empty path it is what it is. -/
theorem directoryOf?_of_empty (hempty : root.text = "")
    (hnames : ∀ name ∈ front ++ [last], Path.IsName name)
    (hs : s.path = (root.join ⟨"."⟩).along (front ++ [last])) :
    directoryOf? root s = some ((root.join ⟨"."⟩).along front) := by
  obtain ⟨hfront, -⟩ := List.forall_mem_append.1 hnames
  have hlead := Path.lead_join_current root
  rw [Path.join_empty hempty] at hlead hs ⊢
  have hsplit : (Path.split (Path.along ⟨"."⟩ front).text.toList).2 = front.map String.toList := by
    by_cases hnil : front = []
    · rw [hnil]
      rfl
    · rw [Path.split_along hlead hnil hfront]
      rfl
  have hroot : root = ⟨""⟩ := congrArg Path.mk hempty
  rw [directoryOf?, hs, Path.parent?_along hlead (.inr rfl) hnames, Option.map_some, hroot,
    Path.relativeTo?_empty (by rw [hsplit, Path.dropIdleEnd_map hfront]), Option.getD_some]

/-- Seen from another path it is told by the names on the way. -/
theorem directoryOf?_of_ne (hroot : root.text ≠ "") (hne : front ≠ [])
    (hnames : ∀ name ∈ front ++ [last], Path.IsName name)
    (hs : s.path = (root.join ⟨"."⟩).along (front ++ [last])) :
    directoryOf? root s = some (.ofNames front) := by
  obtain ⟨hfront, -⟩ := List.forall_mem_append.1 hnames
  have hlead := Path.lead_join_current root
  have hcomponents := Path.components_join_current hroot
  have hstart : (root.join ⟨"."⟩).components ≠ [] := hcomponents ▸ Path.components_ne_nil hroot
  rw [directoryOf?, hs, Path.parent?_along hlead (.inl hne) hnames, Option.map_some,
    Path.relativeTo?_along hlead hcomponents.symm hstart hne hfront, Option.getD_some]

/-- Joined to the directory of the project it leads to that of the source. -/
theorem locate_join_directoryOf? (hnames : ∀ name ∈ front ++ [last], Path.IsName name)
    (hs : s.path = (root.join ⟨"."⟩).along (front ++ [last])) (hd : directoryOf? root s = some d)
    (hne : d.components ≠ []) (hopen : ∀ q, s.path.parent? = some q → t.hasDirectory q) :
    t.locate (root.join d) = .ok (root.join d).location ∧
      (root.join d).components = (root.join ⟨"."⟩).components ++ front.map .name := by
  obtain ⟨hfront, -⟩ := List.forall_mem_append.1 hnames
  have hlead := Path.lead_join_current root
  by_cases hempty : root.text = ""
  · obtain rfl := Option.some.inj ((directoryOf?_of_empty hempty hnames hs).symm.trans hd)
    have hdirectory := hopen _ (hs ▸ Path.parent?_along hlead
      (.inr (by rw [Path.join_empty hempty]; rfl)) hnames)
    rw [Path.join_empty hempty, Path.components_along hfront]
    exact ⟨(Tree.hasDirectory_iff.1 hdirectory).1, rfl⟩
  · have hroot := Path.components_join_current hempty
    have hnil : front ≠ [] := by
      rintro rfl
      have hcomponents := components_of_directoryOf? hnames hs hd
      rw [hroot, List.map_nil, List.append_nil] at hcomponents
      exact hne (List.append_right_eq_self.1 hcomponents)
    obtain rfl := Option.some.inj ((directoryOf?_of_ne hempty hnil hnames hs).symm.trans hd)
    have hdirectory := hopen _ (hs ▸ Path.parent?_along hlead (.inl hnil) hnames)
    rw [← Path.along_eq_join hnil hfront, Path.components_along hfront, hroot]
    refine ⟨Tree.locate_of_hasDirectory hdirectory ?_ (fun htext => ?_) ?_, rfl⟩
    · rw [Path.components_along hfront, Path.components_along hfront, hroot]
    · have hcomponents := @Path.components_along root front hfront
      rw [Path.components_eq_nil htext, eq_comm, List.append_eq_nil_iff] at hcomponents
      exact Path.components_ne_nil hempty hcomponents.1
    · -- The dot in between is left out.
      rw [Path.text_along hnil hfront, Path.text_along hnil hfront, hlead, Path.join_eq (by decide)]
      simp only [String.toList_append]
      exact ((List.sublist_append_left _ _).trans (List.sublist_append_left _ _)).append_right _

/-- A source lies in the directory of the project or below it. -/
theorem exists_names_of_discovers (ht : t.IsProper)
    (h : t.Discovers (root.join ⟨"."⟩) [] names stem s) :
    ∃ front last, names = front ++ [last] := by
  rcases List.eq_nil_or_concat names with rfl | ⟨front, last, rfl⟩
  · have hsources : t.sources (root.join ⟨"."⟩) [] ≠ [] :=
      List.ne_nil_of_mem ((Tree.mem_sources_iff ht).2 ⟨[], stem, h⟩)
    obtain ⟨content, hfile⟩ := ht.hasFile_iff.1 h.file
    have hdirectory := (Tree.reaches_of_sources hsources).directory
    have hself : (root.join ⟨"."⟩).location.descend [] = root.location := by
      rw [Path.location_join_current]
      simp [Location.descend]
    rw [hself, hdirectory] at hfile
    simp at hfile
  · exact ⟨front, last, List.concat_eq_append⟩

theorem manifestFor_cases (directories : PathSet) : manifestFor directories = {} ∨
    ∃ d, directories.paths = [d] ∧ d.components ≠ [] ∧
      manifestFor directories = { papers := d } := by
  rw [manifestFor]
  split
  · next d hd =>
    split
    · exact .inl rfl
    · next hne => exact .inr ⟨d, hd, hne, rfl⟩
  · exact .inl rfl

theorem excludes_manifestFor (directories : PathSet) : (manifestFor directories).excludes = [] := by
  obtain h | ⟨d, -, -, h⟩ := manifestFor_cases directories
  · rw [h]
  · rw [h]

/-- The directory that a new manifest tells has the same sources. -/
theorem map_trace_manifestFor (ht : t.IsProper)
    (hopen : (unconfigured t root).OpensDirectories t) :
    (t.sources (root.join (manifestFor (unconfigured t root).sourceDirectories).papers) []).map
      Source.trace = (unconfigured t root).sources.map Source.trace := by
  have hlists := lists_sourceDirectories (unconfigured t root)
  obtain hdefault | ⟨d, hd, hne, hmanifest⟩ :=
    manifestFor_cases (unconfigured t root).sourceDirectories
  · rw [hdefault]
    rfl
  · rw [hmanifest]
    -- The directory is that of a source.
    have hmem : d ∈ (unconfigured t root).sourceDirectories.paths := hd ▸ List.mem_cons_self
    obtain ⟨s₀, hmem₀, hd₀⟩ := List.mem_filterMap.1 (hlists.mem d hmem)
    obtain ⟨names₀, stem₀, hfound₀⟩ := (Tree.mem_sources_iff ht).1 hmem₀
    obtain ⟨front, last, rfl⟩ := exists_names_of_discovers ht hfound₀
    have hnames₀ := ht.isName_of_hasFile hfound₀.file
    obtain ⟨hlocate, hcomponents⟩ :=
      locate_join_directoryOf? hnames₀ hfound₀.path hd₀ hne (hopen s₀ hmem₀)
    refine Tree.map_trace_sources ht hlocate hfound₀.leads
      (fun name hname => hnames₀ name (List.mem_append_left _ hname)) hcomponents
      fun names stem s hfound => ?_
    -- All others have the same one.
    obtain ⟨front', last', rfl⟩ := exists_names_of_discovers ht hfound
    obtain ⟨parent, hparent⟩ := Path.exists_parent? hfound.name
    have hd' : directoryOf? root s = some ((parent.relativeTo? root).getD parent) := by
      rw [directoryOf?, hparent]
      rfl
    obtain ⟨e, he, hsame⟩ := hlists.covers _
      (List.mem_filterMap.2 ⟨s, (Tree.mem_sources_iff ht).2 ⟨_, stem, hfound⟩, hd'⟩)
    rw [hd, List.mem_singleton] at he
    have hfront := components_of_directoryOf? (ht.isName_of_hasFile hfound.file) hfound.path hd'
    rw [← hsame, he, components_of_directoryOf? hnames₀ hfound₀.path hd₀,
      List.append_cancel_left_eq] at hfront
    rw [(List.map_inj_right fun _ _ => Path.Component.name.inj).1 hfront]
    exact List.prefix_append _ _

/-! ## Discovery with and without a manifest -/

theorem load_of_not_has (h : ¬ t.has (manifestPath root)) :
    load t root = .ok (unconfigured t root) := by
  rw [load, loadManifest, if_neg h]
  rfl

theorem load_of_read {text : String} {m : Manifest} (hread : t.read (manifestPath root) = .ok text)
    (hparse : Manifest.parse? text = some m) : load t root = .ok (ofManifest t root m true) := by
  obtain ⟨entry, hstat, -⟩ := bind_eq_ok_iff.1 hread
  have hhas : t.has (manifestPath root) := by rw [Tree.has, hstat]
  simp only [load, loadManifest, if_pos hhas, hread, hparse]
  rfl

end Project

/-! ## The command -/

namespace Action

variable {α β : Type} {c c' : Console}

/-- The result of an action on a console, and the console that it leaves. -/
def on (action : Action α) (c : Console) : Except Failure α × Console :=
  action.run.run c

theorem on_bind (action : Action α) (next : α → Action β) (c : Console) :
    on (action >>= next) c = match action.on c with
      | (.ok a, c₁) => (next a).on c₁
      | (.error f, c₁) => (.error f, c₁) := by
  rw [on, ExceptT.run_bind, StateT.run_bind, on]
  generalize StateT.run (ExceptT.run action) c = outcome
  obtain ⟨f | a, c₁⟩ : Except Failure α × Console := outcome
  · rfl
  · rfl

theorem on_onTree (work : Work α) (c : Console) : (onTree work).on c = match work.on c.tree with
    | (.ok a, tree) => (.ok a, { c with tree })
    | (.error f, tree) => (.error f, { c with tree }) := by
  have hget : (get : Action Console).on c = (.ok c, c) := rfl
  rw [onTree, on_bind, hget, Work.on]
  dsimp only
  generalize StateT.run (ExceptT.run work) c.tree = outcome
  obtain ⟨f | a, tree⟩ : Except Failure α × Tree := outcome
  · rfl
  · rfl

/-- An action that tells something to people and does nothing else. -/
def Tells (action : Action Unit) : Prop :=
  ∀ c, ∃ err, action.on c = (.ok (), { c with err })

theorem tells_tell (text : String) : Tells (tell text) :=
  fun c => ⟨c.err ++ text, rfl⟩

theorem tells_status (word message : String) : Tells (status word message) :=
  tells_tell _

theorem tells_statusOn (word : String) (p : Path) : Tells (statusOn word p) :=
  fun c => tells_status word (p.display c.workingDirectory) c

theorem Tells.bind {action next : Action Unit} (h : action.Tells) (hnext : next.Tells) :
    Tells (action >>= fun _ => next) := by
  intro c
  obtain ⟨err, hfirst⟩ := h c
  rw [on_bind, hfirst]
  obtain ⟨err', hthen⟩ := hnext { c with err }
  exact ⟨err', hthen⟩

end Action

namespace Command

variable {c : Console} {root : Path}

theorem on_runInit (h : ¬ c.tree.has (Project.manifestPath root)) (force : Bool) : ∃ err,
    (runInit root force).on c =
      match c.tree.write (Project.manifestPath root) (.text
        (Project.manifestFor (Project.unconfigured c.tree root).sourceDirectories).write) with
      | .ok tree => (.ok (), { c with tree, err })
      | .error fault =>
        (.error (.file (Project.manifestPath root) .writeManifest fault), { c with err }) := by
  have hget : (get : Action Console).on c = (.ok c, c) := rfl
  obtain ⟨err, hscanning⟩ := Action.tells_statusOn "Scanning" root c
  have hload : (loadProject { root }).on { c with err } =
      (.ok (Project.unconfigured c.tree root), { c with err }) := by
    have hget : (get : Action Console).on { c with err } =
        (.ok { c with err }, { c with err }) := rfl
    rw [loadProject, Action.on_bind, hget]
    dsimp only
    rw [Project.load_of_not_has h]
    rfl
  rw [runInit, Action.on_bind, hget]
  dsimp only
  rw [if_neg fun hthere => h hthere.1, Action.on_bind, hscanning]
  dsimp only
  rw [Action.on_bind, hload]
  dsimp only
  rw [Action.on_bind, Action.on_onTree, Work.on_writeText]
  cases c.tree.write (Project.manifestPath root) (.text
    (Project.manifestFor (Project.unconfigured c.tree root).sourceDirectories).write) with
  | error fault => exact ⟨err, rfl⟩
  | ok tree =>
    dsimp only
    split
    · exact (Action.tells_status _ _).bind (Action.tells_status _ _) { c with tree, err }
    · exact Action.tells_status _ _ { c with tree, err }

/-- A new manifest preserves the project. If it is written, and if it is read as it was
    written, the project that is discovered has it, and it has the sources that it had, in the
    same order and with the same outputs, up to spellings. -/
theorem load_of_runInit {c c' : Console} {root : Path} {force : Bool} (ht : c.tree.IsProper)
    (hnone : ¬ c.tree.has (Project.manifestPath root))
    (hopen : (Project.unconfigured c.tree root).OpensDirectories c.tree)
    (hread : Manifest.parse?
        (Project.manifestFor (Project.unconfigured c.tree root).sourceDirectories).write =
      some (Project.manifestFor (Project.unconfigured c.tree root).sourceDirectories))
    (h : (runInit root force).on c = (.ok (), c')) :
    Project.load c.tree root = .ok (Project.unconfigured c.tree root) ∧
      ∃ p, Project.load c'.tree root = .ok p ∧ p.hasManifest ∧
        p.sources.map Source.trace =
          (Project.unconfigured c.tree root).sources.map Source.trace := by
  refine ⟨Project.load_of_not_has hnone, ?_⟩
  have hwrite : c.tree.write (Project.manifestPath root) (.text
      (Project.manifestFor (Project.unconfigured c.tree root).sourceDirectories).write) =
        .ok c'.tree := by
    obtain ⟨err, hrun⟩ := on_runInit hnone force
    rw [hrun] at h
    split at h
    · next tree hwrite =>
      rw [hwrite, ← (Prod.mk.inj h).2]
    · simp at h
  obtain ⟨htree, hlocate, hfree⟩ := Tree.set_of_write hwrite
  have hthere : c'.tree.read (Project.manifestPath root) = .ok
      (Project.manifestFor (Project.unconfigured c.tree root).sourceDirectories).write := by
    rw [htree]
    refine Tree.read_eq_ok (Tree.locate_mono (fun k => (Tree.sameDirectories_set hfree _ k).2)
      hlocate) ?_
    rw [Tree.get?_set hfree, if_pos rfl]
  refine ⟨_, Project.load_of_read hthere hread, rfl, ?_⟩
  have hname : (Project.manifestPath root).fileName? = some Failure.manifestName :=
    Path.fileName?_join_name (by decide)
  have hplain : ¬ (Project.manifestPath root).isSource := by
    rw [Path.isSource_iff, hname]
    rintro ⟨stem, -, hstem⟩
    have hlast := congrArg (·.toList.getLast?) (Option.some.inj hstem)
    simp [Failure.manifestName, sourceEnding] at hlast
  rw [← Project.map_trace_manifestFor ht hopen, ← Tree.sources_of_write ht hname hplain hwrite,
    Project.ofManifest, Project.excludes_manifestFor]

/-- A console where one paper lies in a directory below that of the project. -/
def sectionedConsole : Console where
  tree :=
    { entries := [
        ({ names := ["paper"] }, .directory),
        ({ names := ["paper", "sections"] }, .directory),
        ({ names := ["paper", "sections", "a.rdf.tex"] }, .file (.text ""))] }
  workingDirectory := ⟨"/home"⟩

/-- Its paper is found again where the new manifest tells to look. -/
theorem load_sectionedConsole :
    (Project.unconfigured sectionedConsole.tree ⟨"paper"⟩).sources =
        [⟨⟨"paper/./sections/a.rdf.tex"⟩, ⟨"paper/./sections/a.tex"⟩⟩] ∧
      ∃ c', (runInit ⟨"paper"⟩ false).on sectionedConsole = (.ok (), c') ∧
        ∃ p, Project.load c'.tree ⟨"paper"⟩ = .ok p ∧ p.hasManifest ∧
          p.sources.map Source.trace =
            (Project.unconfigured sectionedConsole.tree ⟨"paper"⟩).sources.map Source.trace := by
  have hfound : (sectionedConsole.tree.below { names := ["paper"] }).filterMap
        (Tree.sourceAlong? ⟨"paper/."⟩ []) =
      [⟨⟨"paper/./sections/a.rdf.tex"⟩, ⟨"paper/./sections/a.tex"⟩⟩] := by
    decide +kernel
  have hjoin : (⟨"paper"⟩ : Path).join ⟨"."⟩ = ⟨"paper/."⟩ := by decide +kernel
  have hlocate : sectionedConsole.tree.locate ⟨"paper/."⟩ = .ok { names := ["paper"] } :=
    toOption_eq_some_iff.1 (by decide +kernel)
  have hdirectory : sectionedConsole.tree.get? { names := ["paper"] } = some .directory := by
    decide +kernel
  have hsources : (Project.unconfigured sectionedConsole.tree ⟨"paper"⟩).sources =
      [⟨⟨"paper/./sections/a.rdf.tex"⟩, ⟨"paper/./sections/a.tex"⟩⟩] := by
    calc (Project.unconfigured sectionedConsole.tree ⟨"paper"⟩).sources
        = sectionedConsole.tree.sources ((⟨"paper"⟩ : Path).join ⟨"."⟩) [] := rfl
      _ = sectionedConsole.tree.sources ⟨"paper/."⟩ [] := by rw [hjoin]
      _ = _ := by
        rw [Tree.sources_eq_of_directory hlocate hdirectory, hfound, List.mergeSort_singleton]
  have hmanifest : Project.manifestFor
      (Project.unconfigured sectionedConsole.tree ⟨"paper"⟩).sourceDirectories =
        { papers := ⟨"sections"⟩ } := by
    rw [Project.sourceDirectories, hsources]
    decide +kernel
  have hnone : ¬ sectionedConsole.tree.has (Project.manifestPath ⟨"paper"⟩) := by decide +kernel
  obtain ⟨tree, hwrite⟩ : ∃ tree, sectionedConsole.tree.write (Project.manifestPath ⟨"paper"⟩)
      (.text ({ papers := ⟨"sections"⟩ } : Manifest).write) = .ok tree := by
    refine (Option.isSome_iff_exists.1 (?_ : (sectionedConsole.tree.write _ _).toOption.isSome)).imp
      fun tree => toOption_eq_some_iff.1
    decide +kernel
  have hrun : ∃ c', (runInit ⟨"paper"⟩ false).on sectionedConsole = (.ok (), c') := by
    obtain ⟨err, hrun⟩ := on_runInit hnone false
    rw [hmanifest, hwrite] at hrun
    exact ⟨_, hrun⟩
  obtain ⟨c', hrun⟩ := hrun
  refine ⟨hsources, c', hrun, (load_of_runInit (by decide +kernel) hnone ?_ ?_ hrun).2⟩
  · rw [Project.OpensDirectories, hsources]
    decide +kernel
  · rw [hmanifest]
    decide +kernel

end Command

end PaperGraph
