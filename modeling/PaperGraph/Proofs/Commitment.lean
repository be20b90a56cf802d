import PaperGraph.Proofs.Scanning
import PaperGraph.Proofs.Work
import PaperGraph.Proofs.Writing

/-!
# What a run changes

All papers are read before anything is written. So a run that gives up on a
paper leaves the tree as it found it, as a dry run always does; and a run that
succeeds has written its outputs and after them its publication.

* `Work.Spares`: work that never fails as reading papers does;
* `Draft.report`, `Draft.dryReport`: what is reported of a draft; both branches
  validate its exports, and come to the same;
* `Run.keeps_ofSources`: what holds of all that writes and makes directories
  holds of a run;
* `Run.written_of_commit`: what a run that is not dry reports, and what it leaves
  of a tree;
* `Run.Disciplined`: all that is said above, which holds of runs over texts and
  over files alike (`Run.disciplined_on`).
-/

namespace PaperGraph

variable {α β : Type} {t t' : Tree} {p : Path}

/-- The failures of a run on its papers: one cannot be read, not exactly one is
    the root, or a list of pairs is malformed. -/
def Failure.IsOfReading : Failure → Prop
  | .file _ .readSource _ => True
  | .noSingleRoot _ => True
  | .malformedPair .. => True
  | _ => False

theorem Failure.not_isOfReading_file {action : FileAction} {fault : FileFault}
    (h : action ≠ .readSource) : ¬ (Failure.file p action fault).IsOfReading := by
  cases action with
  | readSource => exact absurd rfl h
  | _ => exact id

/-! ## Work that writes -/

namespace Work

variable {work : Work α} {next : α → Work β}

/-- No failure is one on papers. -/
def Spares (work : Work α) : Prop :=
  ∀ t f, (work.on t).1 = .error f → ¬ f.IsOfReading

theorem Spares.bind (h : work.Spares) (hnext : ∀ a, (next a).Spares) :
    Spares (work >>= next) := by
  intro t f hf
  have hwork := h t f
  rw [on_bind] at hf
  rcases ho : work.on t with ⟨g | a, t₁⟩
  · rw [ho] at hf hwork
    obtain rfl := Except.error.inj hf
    exact hwork rfl
  · rw [ho] at hf
    exact hnext a t₁ f hf

theorem spares_pure (a : α) : Spares (pure a) := by
  intro t f hf
  cases hf

theorem spares_writeText (text : String) {action : FileAction} (h : action ≠ .readSource) :
    (writeText p text action).Spares := by
  intro t f hf
  rw [on_writeText] at hf
  split at hf
  · simp at hf
  · obtain rfl := Except.error.inj hf
    exact Failure.not_isOfReading_file h

theorem spares_makeParent {action : FileAction} (h : action ≠ .readSource) :
    (makeParent p action).Spares := by
  intro t f hf
  rw [on_makeParent] at hf
  split at hf
  · simp at hf
  · split at hf
    · simp at hf
    · obtain rfl := Except.error.inj hf
      exact Failure.not_isOfReading_file h

theorem spares_forM {step : α → Work Unit} (h : ∀ a, (step a).Spares) (l : List α) :
    Spares (l.forM step) := by
  induction l with
  | nil =>
    intro t f hf
    cases hf
  | cons a l ih => exact (h a).bind fun _ => ih

end Work

/-! ## Reports -/

/-- What is reported of a draft that was written, its publication under the
    identifier `id`. -/
def Draft.report (draft : Draft) (id : String) : Report where
  draft
  validation := draft.exports.validate
  published := draft.exports.validate.accepted.length
  publication := some (Publication.iriOf id)
  diagnostics := draft.diagnostics ++ draft.exports.validate.diagnostics
  dry := false

/-- What is reported of a draft that was not. -/
def Draft.dryReport (draft : Draft) : Report where
  draft
  validation := draft.exports.validate
  published := 0
  publication := none
  diagnostics := draft.diagnostics ++ draft.exports.validate.diagnostics
  dry := true

namespace Run

variable {options : RunOptions} {id : String}

/-! ## Writing a draft -/

/-- What a run writes of a draft: the outputs, and then the publication. -/
def writes (options : RunOptions) (id : String) (draft : Draft) : List (Path × String) :=
  draft.outputs.map (fun o => (o.source.output, o.text)) ++
    [(options.exportPath,
      (Publication.ofContributions draft.exports.validate.accepted id).render options.format)]

/-- A text is put at a path by making the directory that it lies in, if that is
    missing, and writing it there. -/
theorem written_of_put {text : String} {making writing : FileAction} {u : Unit}
    (h : Work.on (do Work.makeParent p making; Work.writeText p text writing) t = (.ok u, t')) :
    t.Written [(p, text)] t' := by
  obtain ⟨_, t₁, hparent, htext⟩ := Work.on_bind_eq_ok_iff.1 h
  have hdeepens (l : Location) : t.Deepens t₁ l (l.IsAbove p) := by
    rw [Work.on_makeParent] at hparent
    split at hparent
    · obtain rfl := (Prod.mk.inj hparent).2
      exact .refl
    · next parent hp =>
      split at hparent
      · next made hmade =>
        obtain rfl := (Prod.mk.inj hparent).2
        exact Tree.deepens_of_makeDirectories hp hmade l
      · simp at hparent
  have hwrite : t₁.write p (.text text) = .ok t' := by
    rw [Work.on_writeText] at htext
    split at htext
    · next made hmade => rw [hmade, (Prod.mk.inj htext).2]
    · simp at htext
  exact .of_write hdeepens hwrite

theorem written_of_outputs {outputs : List Output} {u : Unit}
    (h : Work.on (outputs.forM writeOutput) t = (.ok u, t')) :
    t.Written (outputs.map fun o => (o.source.output, o.text)) t' := by
  induction outputs generalizing t with
  | nil =>
    obtain rfl := (Prod.mk.inj h).2
    exact .nil
  | cons o outputs ih =>
    obtain ⟨_, t₁, hfirst, hrest⟩ := Work.on_bind_eq_ok_iff.1 h
    exact (written_of_put hfirst).append (ih hrest)

theorem spares_put (p : Path) (text : String) {making writing : FileAction}
    (hmaking : making ≠ .readSource) (hwriting : writing ≠ .readSource) :
    Work.Spares (do Work.makeParent p making; Work.writeText p text writing) :=
  (Work.spares_makeParent hmaking).bind fun _ => Work.spares_writeText text hwriting

/-- Whatever fails when a draft is written, the papers have been read. -/
theorem spares_commit (draft : Draft) : (commit options id draft).Spares := by
  refine Work.Spares.bind ?_ fun _ => Work.spares_pure _
  rw [writeDraft]
  split
  · exact Work.spares_pure _
  · refine (Work.spares_forM (fun o => ?_) _).bind fun _ => Work.Spares.bind ?_ fun _ => ?_
    · exact spares_put _ _ (by decide) (by decide)
    · exact spares_put _ _ (by decide) (by decide)
    · exact Work.spares_pure _

theorem on_commit_dry (hdry : options.dry) (draft : Draft) (t : Tree) :
    (commit options id draft).on t = (.ok draft.dryReport, t) := by
  rw [commit, writeDraft, if_pos hdry, hdry]
  rfl

/-- What a run that writes has come to, and what it leaves of a tree. -/
theorem written_of_commit (hdry : ¬ options.dry) {draft : Draft} {report : Report}
    (h : (commit options id draft).on t = (.ok report, t')) :
    report = draft.report id ∧ t.Written (writes options id draft) t' := by
  obtain ⟨exported, t₁, hwrite, h⟩ := Work.on_bind_eq_ok_iff.1 h
  rw [writeDraft, if_neg hdry] at hwrite
  obtain ⟨_, t₂, houtputs, hwrite⟩ := Work.on_bind_eq_ok_iff.1 hwrite
  obtain ⟨_, t₃, hpublish, hwrite⟩ := Work.on_bind_eq_ok_iff.1 hwrite
  obtain ⟨rfl, rfl⟩ : _ = exported ∧ t₃ = t₁ := by simpa using Prod.mk.inj hwrite
  obtain ⟨rfl, rfl⟩ : _ = report ∧ t₃ = t' := by simpa using Prod.mk.inj h
  refine ⟨?_, (written_of_outputs houtputs).append (written_of_put hpublish)⟩
  simp [Draft.report, Bool.eq_false_iff.2 hdry]

theorem draft_of_commit {draft : Draft} {report : Report}
    (h : ((commit options id draft).on t).1 = .ok report) : report.draft = draft := by
  by_cases hdry : options.dry
  · rw [on_commit_dry hdry] at h
    rw [← Except.ok.inj h, Draft.dryReport]
  · rw [(written_of_commit hdry (Prod.ext h rfl)).1, Draft.report]

/-! ## Runs -/

/-- What is said of the outcome of a run over papers in some sources: the
    result, and what is left of the tree `t`. -/
structure Disciplined (options : RunOptions) (id : String) (sources : List Source) (t : Tree)
    (outcome : Except Failure Report × Tree) : Prop where
  /-- A run that gives up on its papers has changed nothing. -/
  unread : ∀ f, outcome.1 = .error f → f.IsOfReading → outcome.2 = t
  /-- A dry run changes nothing, whatever its result. -/
  dry : options.dry → outcome.2 = t
  /-- The outputs of a run belong to the papers, in their order. -/
  complete : ∀ report, outcome.1 = .ok report → report.draft.outputs.map (·.source) = sources
  /-- A run that succeeds and is not dry has written the outputs and then the
      publication, and changed nothing else but for missing directories. -/
  written : ¬ options.dry → ∀ report, outcome.1 = .ok report →
    t.Written (writes options id report.draft) outcome.2

variable {ask : Resolver} {papers : List (Source × String)} {sources : List Source}

theorem disciplined_error (f : Failure) : Disciplined options id sources t (.error f, t) where
  unread _ _ _ := rfl
  dry _ := rfl
  complete _ h := by simp at h
  written _ _ h := by simp at h

theorem disciplined_commit {draft : Draft} (h : draft.outputs.map (·.source) = sources) :
    Disciplined options id sources t ((commit options id draft).on t) where
  unread f hf hreading := absurd hreading (spares_commit draft t f hf)
  dry hdry := by rw [on_commit_dry hdry]
  complete report hreport := by rw [draft_of_commit hreport, h]
  written hdry report hreport := by
    rw [draft_of_commit hreport]
    exact (written_of_commit hdry (Prod.ext hreport rfl)).2

theorem on_ofTexts : (ofTexts ask options id papers).on t =
    match Draft.ofTexts ask papers with
    | .ok draft => (commit options id draft).on t
    | .error f => (.error f, t) := by
  rw [ofTexts, Work.on_bind]
  cases Draft.ofTexts ask papers with
  | ok draft => rfl
  | error f => rfl

theorem draft_of_ofTexts {report : Report}
    (h : ((ofTexts ask options id papers).on t).1 = .ok report) :
    Draft.ofTexts ask papers = .ok report.draft := by
  rw [on_ofTexts] at h
  split at h
  · next draft hdraft => rw [hdraft, draft_of_commit h]
  · simp at h

theorem disciplined_ofTexts (t : Tree) :
    Disciplined options id (papers.map (·.1)) t ((ofTexts ask options id papers).on t) := by
  rw [on_ofTexts]
  cases hdraft : Draft.ofTexts ask papers with
  | error f => exact disciplined_error f
  | ok draft => exact disciplined_commit (Draft.sources_ofTexts hdraft)

/-- The paper in a source, with its text. -/
def readPaper (source : Source) : Work (Source × String) := do
  return (source, ← Work.readText source.path .readSource)

theorem reads_readPaper (source : Source) : (readPaper source).Reads :=
  (Work.reads_readText _ _).bind fun _ _ => rfl

theorem sources_readPapers (h : Work.on (sources.mapM readPaper) t = (.ok papers, t')) :
    papers.map (·.1) = sources := by
  induction sources generalizing papers t t' with
  | nil =>
    obtain rfl := Except.ok.inj (Prod.mk.inj h).1
    rfl
  | cons source sources ih =>
    rw [List.mapM_cons] at h
    obtain ⟨paper, t₁, hpaper, h⟩ := Work.on_bind_eq_ok_iff.1 h
    obtain ⟨rest, t₂, hrest, h⟩ := Work.on_bind_eq_ok_iff.1 h
    obtain ⟨text, t₃, _, hpaper⟩ := Work.on_bind_eq_ok_iff.1 hpaper
    obtain rfl := Except.ok.inj (Prod.mk.inj h).1
    obtain rfl := Except.ok.inj (Prod.mk.inj hpaper).1
    rw [List.map_cons, ih hrest]

/-- The papers have the texts of their files. -/
theorem read_of_readPapers (h : Work.on (sources.mapM readPaper) t = (.ok papers, t')) :
    ∀ paper ∈ papers, t.read paper.1.path = .ok paper.2 := by
  induction sources generalizing papers t t' with
  | nil =>
    obtain rfl := Except.ok.inj (Prod.mk.inj h).1
    exact fun _ hpaper => absurd hpaper List.not_mem_nil
  | cons source sources ih =>
    rw [List.mapM_cons] at h
    obtain ⟨paper, t₁, hpaper, h⟩ := Work.on_bind_eq_ok_iff.1 h
    obtain ⟨rest, t₂, hrest, h⟩ := Work.on_bind_eq_ok_iff.1 h
    obtain ⟨text, t₃, htext, hpaper⟩ := Work.on_bind_eq_ok_iff.1 hpaper
    obtain rfl := Except.ok.inj (Prod.mk.inj h).1
    obtain rfl := (Prod.mk.inj hpaper).2
    obtain rfl := Except.ok.inj (Prod.mk.inj hpaper).1
    rw [Work.on_readText] at htext
    split at htext
    · next hread =>
      obtain rfl := (Prod.mk.inj htext).2
      obtain rfl := Except.ok.inj (Prod.mk.inj htext).1
      rw [List.forall_mem_cons]
      exact ⟨hread, ih hrest⟩
    · simp at htext

/-- A run over files reads the papers, which leaves the tree as it is, and is
    then a run over their texts. -/
theorem on_ofSources : (ofSources ask options id sources).on t =
    match (Work.on (sources.mapM readPaper) t).1 with
    | .ok papers => (ofTexts ask options id papers).on t
    | .error f => (.error f, t) := by
  have hof : ofSources ask options id sources =
      (sources.mapM readPaper >>= ofTexts ask options id) := rfl
  have hreads := Work.reads_mapM reads_readPaper sources t
  rw [hof, Work.on_bind]
  rcases hpapers : Work.on (sources.mapM readPaper) t with ⟨f | papers, t₁⟩
  · obtain rfl : t₁ = t := by rw [← hreads, hpapers]
    rfl
  · obtain rfl : t₁ = t := by rw [← hreads, hpapers]
    rfl

/-- A run over files that succeeds is one over the texts of these files. -/
theorem exists_papers_of_ofSources {report : Report}
    (h : ((ofSources ask options id sources).on t).1 = .ok report) :
    ∃ papers : List (Source × String), papers.map (·.1) = sources ∧
      (∀ paper ∈ papers, t.read paper.1.path = .ok paper.2) ∧
        (ofSources ask options id sources).on t = (ofTexts ask options id papers).on t := by
  rw [on_ofSources] at h ⊢
  split at h
  · next papers hpapers =>
    have hread : Work.on (sources.mapM readPaper) t = (.ok papers, _) := Prod.ext hpapers rfl
    exact ⟨papers, sources_readPapers hread, read_of_readPapers hread, rfl⟩
  · simp at h

theorem disciplined_ofSources (t : Tree) :
    Disciplined options id sources t ((ofSources ask options id sources).on t) := by
  rw [on_ofSources]
  split
  · next papers hpapers =>
    rw [← sources_readPapers (Prod.ext hpapers rfl)]
    exact disciplined_ofTexts t
  · next f _ => exact disciplined_error f

/-! ## What a run keeps -/

section Frames

variable {R : Tree → Tree → Prop} {P : Path → Prop}

theorem keeps_put (hR : Tree.Frame R P) (hp : P p) (text : String)
    (making writing : FileAction) :
    Work.Keeps R (do Work.makeParent p making; Work.writeText p text writing) := by
  refine Work.Keeps.bind hR.trans (fun t => ?_) fun _ t => ?_
  · rw [Work.on_makeParent]
    split
    · exact hR.refl t
    · split
      · next hmade => exact hR.makeDirectories hmade
      · exact hR.refl t
  · rw [Work.on_writeText]
    split
    · next hwrite => exact hR.write hp hwrite
    · exact hR.refl t

theorem keeps_outputs (hR : Tree.Frame R P) {outputs : List Output}
    (h : ∀ o ∈ outputs, P o.source.output) : Work.Keeps R (outputs.forM writeOutput) := by
  induction outputs with
  | nil => exact hR.refl
  | cons o outputs ih =>
    rw [List.forall_mem_cons] at h
    exact Work.Keeps.bind hR.trans (keeps_put hR h.1 _ _ _) fun _ => ih h.2

theorem keeps_commit (hR : Tree.Frame R P) {draft : Draft}
    (houtputs : ∀ o ∈ draft.outputs, P o.source.output) (hexport : P options.exportPath) :
    (commit options id draft).Keeps R := by
  refine Work.Keeps.bind hR.trans ?_ fun _ => hR.refl
  rw [writeDraft]
  split
  · exact hR.refl
  · refine Work.Keeps.bind hR.trans (keeps_outputs hR houtputs) fun _ => ?_
    exact Work.Keeps.bind hR.trans (keeps_put hR hexport _ _ _) fun _ => hR.refl

theorem keeps_ofTexts (hR : Tree.Frame R P) (hpapers : ∀ paper ∈ papers, P paper.1.output)
    (hexport : P options.exportPath) : (ofTexts ask options id papers).Keeps R := by
  intro t
  rw [on_ofTexts]
  split
  · next draft hdraft =>
    refine keeps_commit hR (fun o ho => ?_) hexport t
    have hsource := List.mem_map_of_mem (f := Output.source) ho
    rw [Draft.sources_ofTexts hdraft] at hsource
    obtain ⟨paper, hpaper, hsource⟩ := List.mem_map.1 hsource
    rw [← hsource]
    exact hpapers paper hpaper
  · exact hR.refl t

/-- What is kept by writing at the paths of the outputs and of the publication,
    and by making directories, is kept by a run, whatever its result. -/
theorem keeps_ofSources (hR : Tree.Frame R P) (hsources : ∀ s ∈ sources, P s.output)
    (hexport : P options.exportPath) : (ofSources ask options id sources).Keeps R := by
  intro t
  rw [on_ofSources]
  split
  · next papers hpapers =>
    refine keeps_ofTexts hR (fun paper hpaper => hsources _ ?_) hexport t
    rw [← sources_readPapers (Prod.ext hpapers rfl)]
    exact List.mem_map_of_mem hpaper
  · exact hR.refl t

end Frames

/-- Every run is disciplined, over texts and over files. -/
theorem disciplined_on (ask : Resolver) (options : RunOptions) (id : String) (t : Tree) :
    (∀ papers : List (Source × String), Disciplined options id (papers.map (·.1)) t
      ((ofTexts ask options id papers).on t)) ∧
    ∀ sources : List Source, Disciplined options id sources t
      ((ofSources ask options id sources).on t) :=
  ⟨fun _ => disciplined_ofTexts t, fun _ => disciplined_ofSources t⟩

/-- Two papers with one output, told by two paths. -/
def samplePapers : List (Source × String) :=
  [({ path := ⟨"a.rdf.tex"⟩, output := ⟨"out/a.tex"⟩ }, "one\n"),
   ({ path := ⟨"b.rdf.tex"⟩, output := ⟨"out/./a.tex"⟩ }, "\\begin\x7bdocument\x7d\n")]

/-- How the runs over `samplePapers` are made. -/
def sampleOptions : RunOptions where
  exportPath := ⟨"e.nt"⟩
  format := .ntriples

/-- The second of the two papers is found at both paths. Without papers there
    is no root, and nothing is written. -/
theorem read_samplePapers :
    let ask : Resolver := fun _ _ => .error (.unavailable "")
    let outcome := (ofTexts ask sampleOptions "a1" samplePapers).on {}
    (∃ report, outcome.1 = .ok report ∧
      Tree.Written {} (writes sampleOptions "a1" report.draft) outcome.2) ∧
    outcome.2.read ⟨"out/a.tex"⟩ = .ok "\\begin\x7bdocument\x7d\n" ∧
    ((ofTexts ask sampleOptions "a1" []).on {}).2 = {} := by
  intro ask outcome
  have hwrites : outcome.1.toOption.map (fun r => writes sampleOptions "a1" r.draft) =
      some [(⟨"out/a.tex"⟩, "one\n"), (⟨"out/./a.tex"⟩, "\\begin\x7bdocument\x7d\n"),
        (⟨"e.nt"⟩, "")] := by
    decide +kernel
  obtain ⟨report, hreport, hwrites⟩ := Option.map_eq_some_iff.1 hwrites
  rw [toOption_eq_some_iff] at hreport
  have hwritten := ((disciplined_on ask sampleOptions "a1" {}).1 samplePapers).written (by decide)
    report hreport
  refine ⟨⟨report, hreport, hwritten⟩, ?_, ?_⟩
  · rw [hwrites] at hwritten
    obtain ⟨text, hlast, hread⟩ := hwritten.read List.mem_cons_self
    have htext : lastText [(⟨"out/a.tex"⟩, "one\n"),
        (⟨"out/./a.tex"⟩, "\\begin\x7bdocument\x7d\n"), (⟨"e.nt"⟩, "")]
        (Path.location ⟨"out/a.tex"⟩) = some "\\begin\x7bdocument\x7d\n" := by
      decide +kernel
    rw [hread, Option.some.inj (hlast.symm.trans htext)]
  · exact ((disciplined_on ask sampleOptions "a1" {}).1 []).unread (.noSingleRoot []) rfl trivial

end Run

end PaperGraph
