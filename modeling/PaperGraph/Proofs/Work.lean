import PaperGraph.Run.Report

/-!
# Work on a tree

What work that can fail does to a tree: its result, and the tree that it leaves
(`Work.on`). Chains of work are read from their front, by what the first step
has left to the next one.

* `Work.on_bind_eq_ok_iff`: a chain succeeds if every step does;
* `Work.on_readText`, `Work.on_writeText`, `Work.on_makeParent`: the steps;
* `Work.Keeps`: work that leaves of every tree one that is related to it;
* `Work.Reads`: work that never changes the tree.
-/

namespace PaperGraph

variable {α β : Type} {t t' : Tree} {p : Path}

namespace Work

/-- The result of some work on a tree, and the tree that it leaves. -/
def on (work : Work α) (t : Tree) : Except Failure α × Tree :=
  work.run.run t

variable {work : Work α} {next : α → Work β}

theorem on_bind (work : Work α) (next : α → Work β) (t : Tree) :
    on (work >>= next) t = match work.on t with
      | (.ok a, t₁) => (next a).on t₁
      | (.error f, t₁) => (.error f, t₁) := by
  rw [on, ExceptT.run_bind, StateT.run_bind, on]
  generalize StateT.run (ExceptT.run work) t = outcome
  obtain ⟨f | a, t₁⟩ : Except Failure α × Tree := outcome
  · rfl
  · rfl

theorem on_bind_eq_ok_iff {b : β} : on (work >>= next) t = (.ok b, t') ↔
    ∃ a t₁, work.on t = (.ok a, t₁) ∧ (next a).on t₁ = (.ok b, t') := by
  rw [on_bind]
  obtain ⟨f | a, t₁⟩ := work.on t
  · simp
  · refine ⟨fun h => ⟨a, t₁, rfl, h⟩, ?_⟩
    rintro ⟨a', t', he, h⟩
    obtain ⟨rfl, rfl⟩ : a = a' ∧ t₁ = t' := by simpa using he
    exact h

@[simp]
theorem on_bind_get (next : Tree → Work β) : on (get >>= next) t = (next t).on t :=
  rfl

theorem on_readText (action : FileAction) : (readText p action).on t = match t.read p with
    | .ok text => (.ok text, t)
    | .error fault => (.error (.file p action fault), t) := by
  rw [readText, on_bind_get]
  cases t.read p with
  | ok text => rfl
  | error fault => rfl

theorem on_writeText (text : String) (action : FileAction) :
    (writeText p text action).on t = match t.write p (.text text) with
      | .ok t' => (.ok (), t')
      | .error fault => (.error (.file p action fault), t) := by
  rw [writeText, on_bind_get]
  cases t.write p (.text text) with
  | ok t' => rfl
  | error fault => rfl

theorem on_makeParent (action : FileAction) :
    (makeParent p action).on t = match p.parent? with
      | none => (.ok (), t)
      | some parent => match t.makeDirectories parent with
        | .ok t' => (.ok (), t')
        | .error fault => (.error (.file parent action fault), t) := by
  rw [makeParent]
  cases p.parent? with
  | none => rfl
  | some parent =>
    simp only [on_bind_get]
    cases t.makeDirectories parent with
    | ok t' => rfl
    | error fault => rfl

/-! ## Work that keeps something -/

variable {R : Tree → Tree → Prop}

/-- A tree and what is left of it are related, whatever the result. -/
def Keeps (R : Tree → Tree → Prop) (work : Work α) : Prop :=
  ∀ t, R t (work.on t).2

theorem Keeps.bind (htrans : ∀ t t₁ t', R t t₁ → R t₁ t' → R t t') (h : work.Keeps R)
    (hnext : ∀ a, (next a).Keeps R) : Keeps R (work >>= next) := by
  intro t
  have hwork := h t
  rw [on_bind]
  rcases ho : work.on t with ⟨f | a, t₁⟩
  · rw [ho] at hwork
    exact hwork
  · rw [ho] at hwork
    exact htrans _ _ _ hwork (hnext a t₁)

/-! ## Work that reads -/

/-- The tree is left as it is, whatever the result. -/
def Reads (work : Work α) : Prop :=
  ∀ t, (work.on t).2 = t

theorem Reads.bind (h : work.Reads) (hnext : ∀ a, (next a).Reads) : Reads (work >>= next) :=
  Keeps.bind (R := fun t t' => t' = t) (fun _ _ _ hfirst hthen => hthen.trans hfirst) h hnext

theorem reads_readText (p : Path) (action : FileAction) : (readText p action).Reads := by
  intro t
  rw [on_readText]
  split
  · rfl
  · rfl

theorem reads_mapM {step : α → Work β} (h : ∀ a, (step a).Reads) (l : List α) :
    Reads (l.mapM step) := by
  induction l with
  | nil =>
    rw [List.mapM_nil]
    exact fun t => rfl
  | cons a l ih =>
    rw [List.mapM_cons]
    exact (h a).bind fun b => ih.bind fun bs t => rfl

end Work

end PaperGraph
