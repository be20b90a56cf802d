import PaperGraph.Proofs.Independence

/-!
# Dry runs

A dry run tells beforehand what a run that writes will find out. Up to the
first write both do the same: the drafts are equal, or both runs fail on the
papers in the same way. Each of them then validates the exports in a branch of
its own, the one that writes after its outputs are written, and that comes to
the same.

* `Report.Foretells`: what a report of a dry run tells of another one;
* `Run.Foretold`: what the result of a dry run tells of that of another run,
  which may still fail when it writes, but not otherwise (`Run.foretold_on`).
-/

namespace PaperGraph

/-- What the report `check` of a dry run tells of the report `build` of a run
    whose publication has the identifier `id`. -/
structure Report.Foretells (id : String) (check build : Report) : Prop where
  /-- The outputs, the root, the kinds imported, the number of environments and
      the exports are the same. -/
  draft : check.draft = build.draft
  /-- So is which of the exports can be published. -/
  validation : check.validation = build.validation
  /-- So is what the author is told. -/
  diagnostics : check.diagnostics = build.diagnostics
  /-- Nothing is published by a dry run. -/
  nothing : check.published = 0 ∧ check.publication = none ∧ check.dry = true
  /-- All that was accepted is published otherwise. -/
  everything : build.published = check.validation.accepted.length ∧
    build.publication = some (Publication.iriOf id) ∧ build.dry = false
  /-- Accepted is what a validation of the exports accepts. -/
  validated : check.validation = check.draft.exports.validate

variable {t : Tree} {id other : String} {options : RunOptions} {ask : Resolver}
  {draft : Draft} {papers : List (Source × String)} {sources : List Source}

theorem Draft.foretells (draft : Draft) (id : String) :
    draft.dryReport.Foretells id (draft.report id) where
  draft := rfl
  validation := rfl
  diagnostics := rfl
  nothing := ⟨rfl, rfl, rfl⟩
  everything := ⟨rfl, rfl, rfl⟩
  validated := rfl

namespace Run

/-- What is said of the results of a dry run and of a run that writes. -/
structure Foretold (id : String) (check build : Except Failure Report) : Prop where
  /-- What the dry run fails on, the other one fails on. -/
  failed : ∀ f, check = .error f → build = .error f
  /-- If no write fails, both fail with the same failure, or both succeed. -/
  agree : (∀ f, build = .error f → f.IsOfReading) → Agree (Report.Foretells id) check build

theorem foretold_error (f : Failure) : Foretold id (.error f) (.error f) where
  failed _ h := h
  agree _ := .error f

/-- The result of writing a draft, and a report on the draft alone. -/
theorem foretold_commit (hdry : ¬ options.dry) :
    Foretold id (.ok draft.dryReport) ((commit options id draft).on t).1 where
  failed f h := by simp at h
  agree hwrites := by
    cases hbuild : ((commit options id draft).on t).1 with
    | error f => exact absurd (hwrites f hbuild) (spares_commit draft t f hbuild)
    | ok report =>
      rw [(written_of_commit hdry (Prod.ext hbuild rfl)).1]
      exact .ok (draft.foretells id)

theorem foretold_ofTexts (papers : List (Source × String)) :
    Foretold id ((ofTexts ask { options with dry := true } other papers).on t).1
      ((ofTexts ask { options with dry := false } id papers).on t).1 := by
  rw [on_ofTexts_dry, on_ofTexts]
  cases hdraft : Draft.ofTexts ask papers with
  | error f => exact foretold_error f
  | ok draft => exact foretold_commit Bool.false_ne_true

/-- A dry run foretells every other run that starts from the same tree, with the
    same store and otherwise the same options, over texts and over files. -/
theorem foretold_on (ask : Resolver) (options : RunOptions) (id other : String) (t : Tree) :
    (∀ papers, Foretold id ((ofTexts ask { options with dry := true } other papers).on t).1
      ((ofTexts ask { options with dry := false } id papers).on t).1) ∧
    ∀ sources, Foretold id ((ofSources ask { options with dry := true } other sources).on t).1
      ((ofSources ask { options with dry := false } id sources).on t).1 := by
  refine ⟨foretold_ofTexts, fun sources => ?_⟩
  rw [on_ofSources, on_ofSources]
  split
  · exact foretold_ofTexts _
  · next f _ => exact foretold_error f

/-- A paper that exports a definition, and one that lacks its content. -/
def exportingPapers : List (Source × String) :=
  [({ path := ⟨"a.rdf.tex"⟩, output := ⟨"a.tex"⟩ },
    "\\rdfexport\x7bd\x7d\x7bDefinition\x7d\x7b" ++ Vocabulary.definitionContent ++ "=x\x7d\n" ++
      "\\rdfexport\x7be\x7d\x7bDefinition\x7d\x7b\x7d\n\\begin\x7bdocument\x7d\n")]

/-- Of the two exports one is published, as a dry run foretells. -/
theorem foretells_exportingPapers :
    let ask : Resolver := fun _ _ => .error (.unavailable "")
    let check := ((ofTexts ask { sampleOptions with dry := true } "" exportingPapers).on {}).1
    let build := ((ofTexts ask { sampleOptions with dry := false } "a1" exportingPapers).on {}).1
    (∀ f, build = .error f → f.IsOfReading) ∧ Agree (Report.Foretells "a1") check build ∧
      build.toOption.map (·.published) = some 1 ∧ check.toOption.map (·.published) = some 0 := by
  intro ask check build
  have hbuild : build.toOption.map (·.published) = some 1 := by decide +kernel
  have hwrites : ∀ f, build = .error f → f.IsOfReading := by
    intro f hf
    rw [hf] at hbuild
    simp [Except.toOption] at hbuild
  exact ⟨hwrites, ((foretold_on ask sampleOptions "a1" "" {}).1 exportingPapers).agree hwrites,
    hbuild, by decide +kernel⟩

end Run

end PaperGraph
