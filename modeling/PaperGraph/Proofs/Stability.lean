import PaperGraph.Proofs.Requests
import PaperGraph.Proofs.Rewriting

/-!
# Building again

A project whose papers are built a second time, on what the first run has left,
comes to the same, with one exception: without a directory of its own the
media of a project lie among its papers, and a figure whose image was missing
is found once the first run has written a file of its name.

* `Run.Left`: what a run has left of a tree; a run that is answered alike comes to
  the same on it (`Run.Left.again`);
* `Report.Repeats`: all but the identifier of the publication is the same;
* `Project.IsStable`: a second run repeats the first one;
* `Project.stable_unconfigured`: a project with default settings is stable if it
  overwrites no source and writes nothing that serves a missing image;
* `Project.unstable_figureProject`: a project that does write such a file.
-/

namespace PaperGraph

open Text

/-! ## Directories of papers -/

namespace Tree

variable {t : Tree} {p q root : Path} {text : String}

/-- The directory of an output is that of its source. -/
theorem reaches_parent_output {s : Source} (houtput : s.path.output? = some s.output)
    (hread : t.read s.path = .ok text) (hq : s.output.parent? = some q) : t.Reaches q := by
  obtain ⟨stem, _, hname, hs⟩ := Path.output?_eq_some_iff.1 houtput
  obtain ⟨piece, hlast, _⟩ := Path.fileName?_eq_some_iff.1 hname
  obtain ⟨front, hfront⟩ := List.getLast?_eq_some_iff.1 hlast
  obtain ⟨hosteps, hostart⟩ := Path.steps_withFileName hname (Path.isName_output hname)
  obtain ⟨hsteps, hstart⟩ := Path.steps_parent? hq
  rw [hs, hosteps, List.dropLast_concat, hfront, List.dropLast_concat] at hsteps
  rw [hs, hostart] at hstart
  exact reaches_of_locate (read_eq_ok_iff.1 hread).1 (by rw [hsteps, hfront]) hstart

/-- A name in a directory is told with the directory. -/
theorem Reaches.parent_join {name : String} (h : t.Reaches root) (hname : Path.IsName name)
    (hq : (root.join ⟨name⟩).parent? = some q) : t.Reaches q := by
  obtain ⟨hsteps, hstart⟩ := Path.steps_parent? hq
  rw [Path.steps_join hname.not_isAbsolute, hname.steps, List.dropLast_concat] at hsteps
  rw [Path.start_join hname.not_isAbsolute] at hstart
  exact h.congr hsteps hstart

theorem splitAt_join_current (p : Path) :
    ∃ front, splitAt '/' (p.join ⟨"."⟩).text.toList = front ++ [['.']] := by
  rw [Path.join]
  -- The join adds a separator, unless there is one or there is nothing before.
  split
  · exact ⟨[], rfl⟩
  · split
    · next hslash =>
      obtain ⟨before, hbefore⟩ := stripEnd?_isSome_iff.1 hslash
      refine ⟨splitAt '/' before, ?_⟩
      rw [String.toList_append, hbefore, List.append_assoc, List.singleton_append, splitAt_append]
      rfl
    · refine ⟨splitAt '/' p.text.toList, ?_⟩
      rw [String.toList_append, String.toList_append, List.append_assoc]
      exact splitAt_append ..

/-- A directory that has sources is there. -/
theorem reaches_of_sources {excludes : List String}
    (h : t.sources (root.join ⟨"."⟩) excludes ≠ []) : t.Reaches root := by
  have hcurrent : ¬ Path.isAbsolute ⟨"."⟩ := by decide
  have hsteps : (root.join ⟨"."⟩).steps = root.steps := by
    rw [Path.steps_join hcurrent]
    exact List.append_nil _
  have hstart : (root.join ⟨"."⟩).start = root.start := Path.start_join hcurrent
  cases hlocate : t.locate (root.join ⟨"."⟩) with
  | error fault => simp [sources, filesAt, hlocate] at h
  | ok l =>
    obtain ⟨⟨start, steps⟩, hpieces, hwalk⟩ := bind_eq_ok_iff.1 hlocate
    obtain ⟨rfl, rfl⟩ := pieces_eq_ok hpieces
    have hway := (walk_eq_ok_iff.1 hwalk).1
    refine ⟨?_, ?_⟩
    · rw [← hsteps, ← hstart]
      exact hway.filter
    · -- The last piece stays in the directory before it, so that there is one.
      obtain ⟨front, hfront⟩ := splitAt_join_current root
      rw [hfront, walkable_concat] at hway
      rw [Path.location_eq, ← hsteps, ← hstart, ← Path.location_eq, Path.location, hfront,
        List.foldl_append]
      exact hway.2.1

end Tree

/-! ## Reports -/

/-- The reports of two runs are the same, but for the identifier of the
    publication. -/
structure Report.Repeats (report' report : Report) : Prop where
  /-- The outputs, the root, the kinds imported, the number of environments and
      the exports are the same. -/
  draft : report'.draft = report.draft
  /-- So is which of the exports can be published. -/
  validation : report'.validation = report.validation
  /-- So is the number of contributions published. -/
  published : report'.published = report.published
  /-- So is what the author is told. -/
  diagnostics : report'.diagnostics = report.diagnostics
  /-- Both were dry runs, or none. -/
  dry : report'.dry = report.dry

theorem Draft.repeats (draft : Draft) (id' id : String) :
    (draft.report id').Repeats (draft.report id) where
  draft := rfl
  validation := rfl
  published := rfl
  diagnostics := rfl
  dry := rfl

/-! ## Runs -/

namespace Run

variable {ask ask' : Resolver} {options : RunOptions} {id : String} {t t' : Tree}
  {papers : List (Source × String)} {draft : Draft} {report : Report}

theorem on_readPapers (h : ∀ paper ∈ papers, t.read paper.1.path = .ok paper.2) :
    Work.on ((papers.map (·.1)).mapM readPaper) t = (.ok papers, t) := by
  induction papers with
  | nil => rfl
  | cons paper papers ih =>
    obtain ⟨hpaper, hpapers⟩ := List.forall_mem_cons.1 h
    have hfirst : (readPaper paper.1).on t = (.ok paper, t) := by
      rw [readPaper, Work.on_bind, Work.on_readText, hpaper]
      rfl
    rw [List.map_cons, List.mapM_cons, Work.on_bind, hfirst]
    dsimp only
    rw [Work.on_bind, ih hpapers]
    rfl

theorem on_ofSources_of_read (h : ∀ paper ∈ papers, t.read paper.1.path = .ok paper.2) :
    (ofSources ask options id (papers.map (·.1))).on t = (ofTexts ask options id papers).on t := by
  rw [on_ofSources, on_readPapers h]

/-- What a run does depends on the answers to its requests only. -/
theorem on_ofSources_congr (hread : ∀ paper ∈ papers, t.read paper.1.path = .ok paper.2)
    (hanswers : ∀ r ∈ RunState.requests ask {} papers, ask r.1 r.2 = ask' r.1 r.2) :
    (ofSources ask options id (papers.map (·.1))).on t =
      (ofSources ask' options id (papers.map (·.1))).on t := by
  rw [on_ofSources_of_read hread, on_ofSources_of_read hread, on_ofTexts, on_ofTexts,
    Draft.ofTexts, Draft.ofTexts, RunState.scanAll_congr hanswers]

/-- What a run over papers in files has left of the tree `t`, where the
    directories of all that it writes were there. -/
structure Left (ask : Resolver) (options : RunOptions) (id : String)
    (papers : List (Source × String)) (report : Report) (t t' : Tree) : Prop where
  /-- The papers have the texts of their files. -/
  read : ∀ paper ∈ papers, t.read paper.1.path = .ok paper.2
  /-- They were made into a draft. -/
  draft : Draft.ofTexts ask papers = .ok report.draft
  /-- A text can be put at every path that was written. -/
  admits : ∀ w ∈ writes options id report.draft, t.Admits w.1
  /-- The texts were put there, and nothing else was changed. -/
  tree : t' = (writes options id report.draft).foldl Tree.put t
  /-- That is what was reported. -/
  report : report = report.draft.report id

theorem left_of_ofSources (hdry : ¬ options.dry)
    (hread : ∀ paper ∈ papers, t.read paper.1.path = .ok paper.2)
    (houtputs : ∀ paper ∈ papers, ∀ q, paper.1.output.parent? = some q → t.Reaches q)
    (hexport : ∀ q, options.exportPath.parent? = some q → t.Reaches q)
    (h : (ofSources ask options id (papers.map (·.1))).on t = (.ok report, t')) :
    Left ask options id papers report t t' := by
  rw [on_ofSources_of_read hread] at h
  have hdraft := draft_of_ofTexts (congrArg Prod.fst h)
  rw [on_ofTexts, hdraft] at h
  dsimp only at h
  -- The outputs of the draft are those of the papers.
  have houtputs : ∀ o ∈ report.draft.outputs, ∀ q,
      o.source.output.parent? = some q → t.Reaches q := by
    intro o ho
    have hsource := List.mem_map_of_mem (f := Output.source) ho
    rw [Draft.sources_ofTexts hdraft] at hsource
    obtain ⟨paper, hpaper, hsource⟩ := List.mem_map.1 hsource
    rw [← hsource]
    exact houtputs paper hpaper
  have hadmits := admits_of_commit hdry houtputs hexport h
  rw [on_commit hdry hadmits] at h
  obtain ⟨hreport, rfl⟩ := Prod.mk.inj h
  exact ⟨hread, hdraft, hadmits, rfl, (Except.ok.inj hreport).symm⟩

/-- A run that is answered as before comes to the same, unless a source was
    written over. -/
theorem Left.again (hdry : ¬ options.dry) (h : Left ask options id papers report t t')
    (hspare : ∀ w ∈ writes options id report.draft, ∀ paper ∈ papers,
      w.1.location ≠ paper.1.path.location)
    (hanswers : ∀ r ∈ RunState.requests ask {} papers, ask r.1 r.2 = ask' r.1 r.2) (id' : String) :
    ∃ report' t'', (ofSources ask' options id' (papers.map (·.1))).on t' = (.ok report', t'') ∧
      report'.Repeats report := by
  have hread : ∀ paper ∈ papers, t'.read paper.1.path = .ok paper.2 := fun paper hpaper =>
    h.tree ▸ Tree.read_foldl_put h.admits (fun w hw => hspare w hw paper hpaper)
      (h.read paper hpaper)
  -- The paths do not depend on the identifier, and directories were not changed.
  have hadmits : ∀ w ∈ writes options id' report.draft, t'.Admits w.1 := by
    obtain ⟨houtputs, hexport⟩ := forall_writes_iff.1 h.admits
    have hsame : t.SameDirectories t' := h.tree ▸ Tree.sameDirectories_foldl_put h.admits
    exact forall_writes_iff.2 ⟨fun o ho => (houtputs o ho).congr hsame, hexport.congr hsame⟩
  rw [← on_ofSources_congr hread hanswers, on_ofSources_of_read hread, on_ofTexts, h.draft]
  dsimp only
  rw [on_commit hdry hadmits]
  refine ⟨_, _, rfl, ?_⟩
  rw [h.report]
  exact report.draft.repeats id' id

/-- The store answers as before if nothing was written that serves an image that
    was missing. -/
theorem Left.resolver_eq {store : MinSkg} {limit? : Option Nat}
    (h : Left ask options id papers report t t') {r : Moment × Request}
    (hurl : ∀ url, store.lookedUp? r.2 = some url → t.hasMedia store.media url ∨
      ∀ w ∈ writes options id report.draft, ¬ w.1.Serves store.media url) :
    store.resolver t limit? r.1 r.2 = store.resolver t' limit? r.1 r.2 := by
  refine (MinSkg.resolver_congr (fun url hlooked => ?_) limit? r.1).symm
  rw [h.tree, Tree.hasMedia_foldl_put h.admits (hurl url hlooked)]

end Run

/-! ## Projects -/

namespace Project

/-- The project in a directory, with default settings. -/
def unconfigured (t : Tree) (root : Path) : Project :=
  ofManifest t root {} false

/-- A run of a project that is not dry. -/
def build (p : Project) (ask : Resolver) (id : String) : Work Report :=
  Run.ofSources ask { exportPath := p.exportPath, format := p.manifest.format } id p.sources

/-- If a run of the project succeeds, another one succeeds on what the first has
    left and repeats it, whatever their identifiers. `ask` tells what the store
    answers when it has the media of a tree. -/
def IsStable (p : Project) (ask : Tree → Resolver) (t : Tree) : Prop :=
  ∀ id id' report t', (p.build (ask t) id).on t = (.ok report, t') →
    ∃ report' t'', (p.build (ask t') id').on t' = (.ok report', t'') ∧ report'.Repeats report

/-- No output is written over a source. -/
def SparesSources (p : Project) : Prop :=
  ∀ s ∈ p.sources, ∀ other ∈ p.sources, s.output.location ≠ other.path.location

/-- Nothing that a run writes is found for an image that it has looked for in
    vain. -/
def SparesMedia (p : Project) (store : MinSkg) (limit? : Option Nat) (t : Tree) : Prop :=
  ∀ papers : List (Source × String), papers.map (·.1) = p.sources →
    (∀ paper ∈ papers, t.read paper.1.path = .ok paper.2) →
      ∀ r ∈ RunState.requests (store.resolver t limit?) {} papers,
        ∀ url, store.lookedUp? r.2 = some url → t.hasMedia store.media url ∨
          ∀ q ∈ p.sources.map (·.output) ++ [p.exportPath], ¬ q.Serves store.media url

variable {t t' : Tree} {root : Path}

theorem isName_exportPath : Path.IsName "exports.ttl" where
  busy := by decide
  down := by decide
  whole := by decide

/-- The publication is never written over a source. -/
theorem location_exportPath_ne {s : Source} (hs : s ∈ (unconfigured t root).sources) :
    (unconfigured t root).exportPath.location ≠ s.path.location := by
  have hname : (unconfigured t root).exportPath.fileName? = some "exports.ttl" :=
    Path.fileName?_join_name isName_exportPath
  have hexport : ¬ (unconfigured t root).exportPath.isSource := by
    rw [Path.isSource_iff, hname]
    rintro ⟨stem, _, hstem⟩
    have hlast := congrArg (·.toList.getLast?) (Option.some.inj hstem)
    simp [sourceEnding] at hlast
  have hsource : s.path.isSource := by
    rw [Path.isSource, Tree.output?_of_mem_sources hs]
    rfl
  exact fun hsame => Path.not_isPlain_location hsource (hsame ▸ Path.isPlain_location hname hexport)

/-- What a run of the project writes. -/
theorem forall_writes_of_left {ask : Resolver} {options : RunOptions} {id : String}
    {papers : List (Source × String)} {report : Report} {p : Project} {P : Path → Prop}
    (h : Run.Left ask options id papers report t t') (hpapers : papers.map (·.1) = p.sources)
    (hexport : options.exportPath = p.exportPath)
    (hall : ∀ q ∈ p.sources.map (·.output) ++ [p.exportPath], P q) :
    ∀ w ∈ Run.writes options id report.draft, P w.1 := by
  obtain ⟨houtputs, hlast⟩ := List.forall_mem_append.1 hall
  refine Run.forall_writes_iff.2 ⟨fun o ho => houtputs _ ?_, ?_⟩
  · rw [← hpapers, ← Draft.sources_ofTexts h.draft, List.map_map]
    exact List.mem_map_of_mem (f := fun o : Output => o.source.output) ho
  · rw [hexport]
    exact hlast _ (List.mem_singleton_self _)

/-- The directories of a project with default settings are there once it has
    been built. -/
theorem exists_left_of_build {ask : Resolver} {id : String} {report : Report}
    (h : ((unconfigured t root).build ask id).on t = (.ok report, t')) :
    ∃ papers : List (Source × String), papers.map (·.1) = (unconfigured t root).sources ∧
      Run.Left ask { exportPath := root.join ⟨"exports.ttl"⟩ } id papers report t t' := by
  obtain ⟨papers, hpapers, hread, _⟩ := Run.exists_papers_of_ofSources (congrArg Prod.fst h)
  refine ⟨papers, hpapers, Run.left_of_ofSources Bool.false_ne_true hread
    (fun paper hpaper q hq => ?_) (fun q hq => ?_) (by rw [hpapers]; exact h)⟩
  · have hsource : paper.1 ∈ (unconfigured t root).sources := by
      rw [← hpapers]
      exact List.mem_map_of_mem hpaper
    exact Tree.reaches_parent_output (Tree.output?_of_mem_sources hsource) (hread paper hpaper) hq
  · -- Without a source there is no root.
    have hne : t.sources (root.join ⟨"."⟩) [] ≠ [] := by
      intro hnil
      have hsources : (unconfigured t root).sources = [] := hnil
      rw [build, hsources] at h
      cases h
    exact (Tree.reaches_of_sources hne).parent_join isName_exportPath hq

/-- A project with default settings is stable, if it writes over no source,
    whatever a store answers that does not look at the tree, and whatever a graph
    says, if nothing is written that serves a missing image. -/
theorem stable_unconfigured (hspare : (unconfigured t root).SparesSources) :
    (∀ ask : Resolver, (unconfigured t root).IsStable (fun _ => ask) t) ∧
    ∀ (graph : Graph) (limit? : Option Nat),
      (unconfigured t root).SparesMedia { graph, media := (unconfigured t root).media } limit? t →
      (unconfigured t root).IsStable
        (MinSkg.resolver { graph, media := (unconfigured t root).media } · limit?) t := by
  have hsources : ∀ q ∈ (unconfigured t root).sources.map (·.output) ++
      [(unconfigured t root).exportPath], ∀ s ∈ (unconfigured t root).sources,
        q.location ≠ s.path.location :=
    List.forall_mem_append.2 ⟨List.forall_mem_map.2 hspare,
      List.forall_mem_singleton.2 fun _ => location_exportPath_ne⟩
  have hagain {ask ask' : Resolver} {id id' : String} {report : Report} {t' : Tree}
      {papers : List (Source × String)} (hpapers : papers.map (·.1) = (unconfigured t root).sources)
      (hleft : Run.Left ask { exportPath := root.join ⟨"exports.ttl"⟩ } id papers report t t')
      (hanswers : ∀ r ∈ RunState.requests ask {} papers, ask r.1 r.2 = ask' r.1 r.2) :
      ∃ report' t'', ((unconfigured t root).build ask' id').on t' = (.ok report', t'') ∧
        report'.Repeats report := by
    rw [build, ← hpapers]
    refine hleft.again Bool.false_ne_true (fun w hw paper hpaper => ?_) hanswers id'
    have hw' := forall_writes_of_left (P := fun q => ∀ s ∈ (unconfigured t root).sources,
      q.location ≠ s.path.location) hleft hpapers rfl hsources w hw
    exact hw' _ (hpapers ▸ List.mem_map_of_mem hpaper)
  constructor
  · intro ask id id' report t' h
    obtain ⟨papers, hpapers, hleft⟩ := exists_left_of_build h
    exact hagain hpapers hleft fun _ _ => rfl
  · intro graph limit? hmedia id id' report t' h
    obtain ⟨papers, hpapers, hleft⟩ := exists_left_of_build h
    refine hagain hpapers hleft fun r hr => hleft.resolver_eq fun url hurl => ?_
    refine (hmedia papers hpapers hleft.read r hr url hurl).imp_right fun hnone => ?_
    exact forall_writes_of_left hleft hpapers rfl hnone

/-! ### A paper that imports a figure -/

/-- A paper and an image. The paper imports a figure. -/
def figureTree : Tree where
  entries :=
    [({ names := ["paper.rdf.tex"] }, .file (.text
        "\\rdfimport\x7bl\x7d\x7bk\x7d\x7bf\x7d\x7bMinSKG\x7d\n\\begin\x7bdocument\x7d\n")),
     ({ names := ["shown.png"] }, .file (.text ""))]

/-- The project of the paper, with its media beside it. -/
def figureProject : Project :=
  unconfigured figureTree ⟨"."⟩

/-- What is known of a figure whose image has that URL. -/
def figureFacts (url : String) : Facts :=
  [(Vocabulary.type, "Figure"), (Vocabulary.figureUrl, url), (Vocabulary.figureMime, "image/png"),
    (Vocabulary.figureDescription, "Shown")]

/-- A store that knows the figure. -/
def figureStore (url : String) : MinSkg where
  graph := .ofTriples <| (figureFacts url).map fun (predicate, object) =>
    { subject := .iri "f", predicate, object := .plain object }
  media := figureProject.media

/-- What the store answers if it has found the image or not. -/
def figureAnswer (url : String) (found : Bool) : Answer :=
  if found then .ok { snippet := Snippet.render .figure (figureFacts url) "l" "k", kind := .figure }
  else .error (.missingMedia url)

/-- The paper as the project finds it. -/
def figurePapers : List (Source × String) :=
  [({ path := ⟨"././paper.rdf.tex"⟩, output := ⟨"./paper.tex"⟩ },
    "\\rdfimport\x7bl\x7d\x7bk\x7d\x7bf\x7d\x7bMinSKG\x7d\n\\begin\x7bdocument\x7d\n")]

theorem sources_figureProject : figureProject.sources = figurePapers.map (·.1) := by
  have hjoin : (⟨"."⟩ : Path).join ⟨"."⟩ = ⟨"./."⟩ := by decide +kernel
  have hlocate : figureTree.locate ⟨"./."⟩ = .ok {} := by rfl
  have hfound : (figureTree.below {}).filterMap (Tree.sourceAlong? ⟨"./."⟩ []) =
      figurePapers.map (·.1) := by
    decide +kernel
  calc figureProject.sources
      = figureTree.sources ((⟨"."⟩ : Path).join ⟨"."⟩) [] := rfl
    _ = figureTree.sources ⟨"./."⟩ [] := by rw [hjoin]
    _ = (figurePapers.map (·.1)).mergeSort _ := by
      rw [Tree.sources_eq_of_directory hlocate rfl, hfound]
    _ = figurePapers.map (·.1) := List.mergeSort_singleton _

/-- What the paper asks the store for. -/
def figureRequest : Request where
  iri := "f"
  label := "l"
  key := "k"
  store := "MinSKG"

/-- A run over the paper that gets the same answer to all its requests. -/
def figureRun (url id : String) (t : Tree) : Except Failure Report × Tree :=
  (Run.ofSources (fun _ _ => figureAnswer url (t.hasMedia figureProject.media url))
    { exportPath := figureProject.exportPath } id (figurePapers.map (·.1))).on t

section

variable {url : String}
  (hprofile : Profile.of (figureStore url).graph "f" =
    .ok { kind := .figure, facts := figureFacts url })
  (hrequests : RunState.requests
    (fun _ _ => figureAnswer url (t.hasMedia figureProject.media url)) {} figurePapers =
      [({ paper := 0, line := 1 }, figureRequest)])

include hprofile

theorem resolver_figureStore (t : Tree) (moment : Moment) :
    (figureStore url).resolver t none moment figureRequest =
      figureAnswer url (t.hasMedia figureProject.media url) := by
  have hname : sameStoreName figureRequest.store ((figureStore url).store t).name :=
    show sameStoreName "MinSKG" MinSkg.name by decide +kernel
  have hmissing : Profile.missing { kind := .figure, facts := figureFacts url } = [] := by
    rw [List.eq_nil_iff_forall_not_mem]
    intro p hp
    obtain ⟨hrequired, hpresent⟩ := Kind.mem_missing_iff.1 hp
    exact hpresent hrequired
  rw [MinSkg.resolver, Store.ask, Session.call, if_neg (not_not.2 hname)]
  refine (Graph.resolve_of_ok (r := figureRequest) hprofile).trans ?_
  rw [hmissing, if_neg (not_not.2 rfl), figureAnswer]
  cases hfound : t.hasMedia figureProject.media url with
  | false => exact if_pos ⟨rfl, Bool.eq_false_iff.1 hfound⟩
  | true => exact if_neg fun hno => hno.2 hfound

include hrequests

theorem figureAnswer_eq_resolver :
    ∀ r ∈ RunState.requests
      (fun _ _ => figureAnswer url (t.hasMedia figureProject.media url)) {} figurePapers,
        figureAnswer url (t.hasMedia figureProject.media url) =
          (figureStore url).resolver t none r.1 r.2 := by
  intro r hr
  rw [hrequests, List.mem_singleton] at hr
  subst hr
  exact (resolver_figureStore hprofile t _).symm

theorem on_build_figureProject (hread : ∀ paper ∈ figurePapers, t.read paper.1.path = .ok paper.2)
    (id : String) :
    (figureProject.build ((figureStore url).resolver t none) id).on t = figureRun url id t := by
  rw [build, sources_figureProject]
  exact (Run.on_ofSources_congr hread (figureAnswer_eq_resolver hprofile hrequests)).symm

end

theorem sparesSources_figureProject : figureProject.SparesSources := by
  rw [SparesSources, sources_figureProject]
  decide +kernel

/-- A project is stable whose figure has an image. -/
theorem stable_figureProject :
    figureProject.SparesSources ∧ figureProject.SparesMedia (figureStore "shown") none figureTree ∧
      figureProject.IsStable ((figureStore "shown").resolver · none) figureTree ∧
      ((figureProject.build ((figureStore "shown").resolver figureTree none) "a").on
        figureTree).1.toOption.map (·.draft.imported) = some [.figure] := by
  have hprofile : Profile.of (figureStore "shown").graph "f" =
      .ok { kind := .figure, facts := figureFacts "shown" } :=
    toOption_eq_some_iff.1 (by decide +kernel)
  have hread : ∀ paper ∈ figurePapers, figureTree.read paper.1.path = .ok paper.2 := by
    decide +kernel
  have hrequests : RunState.requests (fun _ _ => figureAnswer "shown"
      (figureTree.hasMedia figureProject.media "shown")) {} figurePapers =
        [({ paper := 0, line := 1 }, figureRequest)] := by
    decide +kernel
  have hmedia : figureProject.SparesMedia (figureStore "shown") none figureTree := by
    intro papers hpapers hpapersRead r hr url hurl
    have hsame := Run.on_readPapers hpapersRead
    rw [hpapers, sources_figureProject, Run.on_readPapers hread] at hsame
    obtain rfl : figurePapers = papers := Except.ok.inj (congrArg Prod.fst hsame)
    rw [← RunState.requests_congr (figureAnswer_eq_resolver hprofile hrequests), hrequests,
      List.mem_singleton] at hr
    subst hr
    have hshown : url = "shown" := by
      have hiri : figureRequest.iri = "f" := rfl
      rw [MinSkg.lookedUp?, Option.ite_none_right_eq_some, Graph.imageUrl?, hiri, hprofile] at hurl
      exact (Option.some.inj (Option.ite_none_right_eq_some.1 hurl.2).2).symm
    subst hshown
    exact .inl (by decide +kernel)
  refine ⟨sparesSources_figureProject, hmedia,
    (stable_unconfigured sparesSources_figureProject).2 _ _ hmedia, ?_⟩
  rw [on_build_figureProject hprofile hrequests hread]
  decide +kernel

/-- The first run writes a file of the name of the missing image, where the
    second one finds it. -/
theorem unstable_figureProject :
    figureProject.SparesSources ∧
      ¬ figureProject.IsStable ((figureStore "paper").resolver · none) figureTree := by
  refine ⟨sparesSources_figureProject, fun hstable => ?_⟩
  have hprofile : Profile.of (figureStore "paper").graph "f" =
      .ok { kind := .figure, facts := figureFacts "paper" } :=
    toOption_eq_some_iff.1 (by decide +kernel)
  have hone : (figureRun "paper" "a" figureTree).1.toOption.map (·.diagnostics.length) =
      some 1 := by
    decide +kernel
  have hnone : (figureRun "paper" "b" (figureRun "paper" "a" figureTree).2).1.toOption.map
      (·.diagnostics.length) = some 0 := by
    decide +kernel
  obtain ⟨first, hfirst, hone⟩ := Option.map_eq_some_iff.1 hone
  obtain ⟨second, hsecond, hnone⟩ := Option.map_eq_some_iff.1 hnone
  have hbuild : (figureProject.build ((figureStore "paper").resolver figureTree none) "a").on
      figureTree = (.ok first, (figureRun "paper" "a" figureTree).2) := by
    rw [on_build_figureProject hprofile (by decide +kernel) (by decide +kernel)]
    exact Prod.ext (toOption_eq_some_iff.1 hfirst) rfl
  obtain ⟨report, t', hagain, hrepeats⟩ := hstable "a" "b" first _ hbuild
  rw [on_build_figureProject hprofile (by decide +kernel) (by decide +kernel)] at hagain
  have hsame : second = report :=
    Except.ok.inj ((toOption_eq_some_iff.1 hsecond).symm.trans (congrArg Prod.fst hagain))
  rw [hsame, hrepeats.diagnostics, hone] at hnone
  exact absurd hnone (by decide)

end Project

end PaperGraph
