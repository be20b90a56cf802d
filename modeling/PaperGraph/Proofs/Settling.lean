import PaperGraph.Proofs.Commitment
import PaperGraph.Proofs.Sources
import PaperGraph.Watch.Stream

/-!
# Runs settle

A run writes next to the sources that it reads, and a watcher tells of what it
has written. As long as no source has a doubled name, and the publication does
not go to the path of a source, all of this passes: no source is written over,
the same sources are found again, and no batch of changes holds an output.

* `Work.SparesSources`: work that touches no source, whatever its result;
* `Stream.nextBatch?_filter`: notices of paths of no sources make no batches;
* `Project.Settles`: all that is said above of a run of a project.
-/

namespace PaperGraph

variable {α : Type} {t t' : Tree} {p q : Path}

/-! ## Work -/

namespace Work

/-- No source is touched, whatever the result. -/
def SparesSources (work : Work α) : Prop :=
  ∀ t : Tree, t.SparesSources (work.on t).2

end Work

/-! ## Runs -/

namespace Run

variable {ask : Resolver} {options : RunOptions} {id : String} {sources : List Source}

theorem sparesSources_ofSources (hsources : ∀ s ∈ sources, ¬ s.output.isSource)
    (hexport : ¬ options.exportPath.isSource) :
    (ofSources ask options id sources).SparesSources :=
  keeps_ofSources Tree.SparesSources.frame hsources hexport

/-- Without a source there is no root, and nothing is written. -/
theorem on_ofSources_nil (t : Tree) : ((ofSources ask options id []).on t).2 = t :=
  (disciplined_ofSources t).unread (.noSingleRoot []) rfl trivial

end Run

/-! ## Watching -/

theorem Batch.absorb_eq_self {b : Batch} {e : Event} (h : ∀ q ∈ e.paths, ¬ q.isSource) :
    Batch.absorb b e = b := by
  have hnone : e.paths.filter (·.isSource) = [] := by
    simpa [List.filter_eq_nil_iff] using h
  rw [absorb, hnone]
  split
  · rfl
  · rfl

/-- Whether a notice tells of nothing but those paths. -/
def Notice.tellsOnly (own : List Path) : Notice → Bool
  | .event e => e.paths.all (· ∈ own)
  | _ => false

namespace Stream

variable {own : List Path}

theorem receive_eq_self (hown : ∀ q ∈ own, ¬ q.isSource) {notice : Notice}
    (h : notice.tellsOnly own) (b : Batch) : Batch.receive b notice = b := by
  cases notice with
  | event e =>
    refine Batch.absorb_eq_self fun q hq => hown q ?_
    exact of_decide_eq_true (List.all_eq_true.1 h q hq)
  | complaint => rfl
  | silence => rfl

theorem burst_filter (hown : ∀ q ∈ own, ¬ q.isSource) (b : Batch) (stream : Stream) :
    burst b (stream.filter (! Notice.tellsOnly own ·)) =
      ((burst b stream).1, (burst b stream).2.filter (! Notice.tellsOnly own ·)) := by
  induction stream generalizing b with
  | nil => rfl
  | cons notice rest ih =>
    by_cases htells : notice.tellsOnly own
    · have hrest : burst b (notice :: rest) = burst b rest := by
        cases notice with
        | event e => rw [burst, receive_eq_self hown htells]; simp
        | complaint => simp [Notice.tellsOnly] at htells
        | silence => simp [Notice.tellsOnly] at htells
      rw [List.filter_cons_of_neg (by simpa using htells), ih, hrest]
    · rw [List.filter_cons_of_pos (by simpa using htells)]
      cases notice with
      | event e => exact ih _
      | complaint => exact ih _
      | silence => rfl

/-- Notices of paths of no sources make no batches. -/
theorem nextBatch?_filter (hown : ∀ q ∈ own, ¬ q.isSource) (stream : Stream) :
    nextBatch? (stream.filter (! Notice.tellsOnly own ·)) =
      ((nextBatch? stream).1, (nextBatch? stream).2.filter (! Notice.tellsOnly own ·)) := by
  induction stream with
  | nil => rfl
  | cons notice rest ih =>
    by_cases htells : notice.tellsOnly own
    · rw [List.filter_cons_of_neg (by simpa using htells), ih, nextBatch?,
        receive_eq_self hown htells]
      rfl
    · rw [List.filter_cons_of_pos (by simpa using htells), nextBatch?, nextBatch?]
      dsimp only
      split
      · exact ih
      · rw [burst_filter hown]

end Stream

/-! ## Projects -/

namespace Project

/-- The paths that a run of a project writes to. -/
def written (p : Project) (options : RunOptions) (t : Tree) : List Path :=
  (p.rescan t).sources.map (·.output) ++ [options.exportPath]

/-- What holds of a run of a project with the sources that it has in the tree
    `t`, and of the tree `left` that the run leaves, whatever its result. -/
structure Settles (p : Project) (options : RunOptions) (t left : Tree) : Prop where
  /-- No output is a source. -/
  outputs : ∀ s ∈ (p.rescan t).sources, ¬ s.output.isSource
  /-- No source is written over. -/
  read : ∀ s ∈ (p.rescan t).sources, ∀ text, t.read s.path = .ok text → left.read s.path = .ok text
  /-- The project finds the same sources again. -/
  rescan : (p.rescan t).rescan left = p.rescan t
  /-- No batch of changes grows by what was written. -/
  absorb : ∀ b e, (∀ q ∈ e.paths, q ∈ p.written options t) → Batch.absorb b e = b
  /-- Notices of what was written make no batches. -/
  batches : ∀ stream : Stream,
    Stream.nextBatch? (stream.filter (! Notice.tellsOnly (p.written options t) ·)) =
      ((Stream.nextBatch? stream).1,
        (Stream.nextBatch? stream).2.filter (! Notice.tellsOnly (p.written options t) ·))

variable {p : Project} {options : RunOptions} {t : Tree}

/-- An output is a source if the name of its own source is doubled, and not
    otherwise. A run settles in every tree in which no source has a doubled
    name, if its publication does not go to the path of a source. -/
theorem settles_on_ofSources (ask : Resolver) (id : String)
    (hnames : ∀ s ∈ (p.rescan t).sources, ¬ s.path.IsDoubled)
    (hexport : ¬ options.exportPath.isSource) :
    (∀ source output : Path, source.output? = some output →
      (output.isSource ↔ source.IsDoubled)) ∧
    p.Settles options t
      ((Run.ofSources ask options id (p.rescan t).sources).on t).2 := by
  have houtputs (s : Source) (hs : s ∈ (p.rescan t).sources) : ¬ s.output.isSource := by
    rw [Path.isSource_output?_iff (Tree.output?_of_mem_sources hs)]
    exact hnames s hs
  have hspares : t.SparesSources ((Run.ofSources ask options id (p.rescan t).sources).on t).2 :=
    Run.sparesSources_ofSources houtputs hexport t
  have hwritten (q : Path) (hq : q ∈ p.written options t) : ¬ q.isSource := by
    rcases List.mem_append.1 hq with hq | hq
    · obtain ⟨s, hs, rfl⟩ := List.mem_map.1 hq
      exact houtputs s hs
    · rwa [List.mem_singleton.1 hq]
  refine ⟨fun _ _ => Path.isSource_output?_iff, houtputs, fun s hs text hread => ?_, ?_,
    fun b e he => Batch.absorb_eq_self fun q hq => hwritten q (he q hq),
    Stream.nextBatch?_filter hwritten⟩
  · refine hspares.read ?_ hread
    rw [Path.isSource, Tree.output?_of_mem_sources hs]
    rfl
  · have hsources : ((Run.ofSources ask options id (p.rescan t).sources).on t).2.sources p.papers
        p.manifest.excludes = t.sources p.papers p.manifest.excludes := by
      by_cases hnil : (p.rescan t).sources = []
      · rw [hnil, Run.on_ofSources_nil]
      · exact hspares.sources_eq hnil
    exact congrArg (fun sources => { p with sources }) hsources

/-- A project in the working directory, without a manifest. -/
def plainProject : Project where
  root := ⟨"."⟩
  manifest := {}
  hasManifest := false
  papers := ⟨"."⟩
  exportPath := ⟨"exports.ttl"⟩
  store := ⟨"minskg.nt"⟩
  media := ⟨"."⟩
  sources := []

theorem sources_plainProject (t : Tree) : (plainProject.rescan t).sources =
    ((t.below {}).filterMap (Tree.sourceAlong? ⟨"."⟩ [])).mergeSort
      fun a b => (a.path.order b.path).isLE :=
  Tree.sources_eq_of_directory rfl rfl

/-- A tree with one paper. -/
def paperTree (name : String) : Tree where
  entries := [({ names := [name] }, .file (.text "\\begin\x7bdocument\x7d\n"))]

/-- What is left of a tree by a run of the project, without a store. -/
def leftByRun (t : Tree) : Tree :=
  ((Run.ofSources (fun _ _ => .error (.unavailable "")) Run.sampleOptions "a1"
    (plainProject.rescan t).sources).on t).2

/-- A run that writes the one paper settles. -/
theorem settles_paperTree :
    (plainProject.rescan (paperTree "a.rdf.tex")).sources =
        [{ path := ⟨"./a.rdf.tex"⟩, output := ⟨"./a.tex"⟩ }] ∧
      plainProject.Settles Run.sampleOptions (paperTree "a.rdf.tex")
        (leftByRun (paperTree "a.rdf.tex")) := by
  have hfound : ((paperTree "a.rdf.tex").below {}).filterMap (Tree.sourceAlong? ⟨"."⟩ []) =
      [{ path := ⟨"./a.rdf.tex"⟩, output := ⟨"./a.tex"⟩ }] := by
    decide +kernel
  have hsources : (plainProject.rescan (paperTree "a.rdf.tex")).sources =
      [{ path := ⟨"./a.rdf.tex"⟩, output := ⟨"./a.tex"⟩ }] := by
    rw [sources_plainProject, hfound, List.mergeSort_singleton]
  refine ⟨hsources, (settles_on_ofSources _ _ (fun s hs => ?_) (by decide +kernel)).2⟩
  rw [← Path.isSource_output?_iff (Tree.output?_of_mem_sources hs)]
  rw [hsources, List.mem_singleton] at hs
  subst hs
  decide +kernel

/-- The output of a paper with a doubled name is a source, and is found as one
    after a run. -/
theorem unsettled_paperTree :
    Path.output? ⟨"./a.rdf.rdf.tex"⟩ = some ⟨"./a.rdf.tex"⟩ ∧ Path.isSource ⟨"./a.rdf.tex"⟩ ∧
      (plainProject.rescan (paperTree "a.rdf.rdf.tex")).sources =
        [{ path := ⟨"./a.rdf.rdf.tex"⟩, output := ⟨"./a.rdf.tex"⟩ }] ∧
      (plainProject.rescan (leftByRun (paperTree "a.rdf.rdf.tex"))).sources.length = 2 := by
  have hfound : ((paperTree "a.rdf.rdf.tex").below {}).filterMap (Tree.sourceAlong? ⟨"."⟩ []) =
      [{ path := ⟨"./a.rdf.rdf.tex"⟩, output := ⟨"./a.rdf.tex"⟩ }] := by
    decide +kernel
  have hsources : (plainProject.rescan (paperTree "a.rdf.rdf.tex")).sources =
      [{ path := ⟨"./a.rdf.rdf.tex"⟩, output := ⟨"./a.rdf.tex"⟩ }] := by
    rw [sources_plainProject, hfound, List.mergeSort_singleton]
  refine ⟨by decide +kernel, by decide +kernel, hsources, ?_⟩
  rw [leftByRun, hsources, sources_plainProject, List.length_mergeSort]
  decide +kernel

end Project

end PaperGraph
