import PaperGraph.Proofs.Commitment
import PaperGraph.Proofs.Sources

/-!
# Writing again

Where the directories of all paths are there already, writing makes none: it
only puts files where there was no directory. Whatever can be written in such a
tree can be written again in any tree with the same directories.

* `Tree.Reaches`: the steps of a path lead to a directory, wherever the path has
  come from;
* `Tree.Admits`: a text can be put at a path; this depends on directories only
  (`Tree.Admits.congr`), and putting a text there succeeds (`Tree.Admits.on_put`);
* `Path.Serves`: a file at a path is found for the URL of an image
  (`Tree.hasMedia_foldl_put`);
* `Run.admits_of_commit`, `Run.on_commit`: a draft is written if every path admits
  its text, and not otherwise.
-/

namespace PaperGraph

open Text

namespace Tree

variable {t t₁ t' : Tree} {p q : Path} {l : Location} {parts : List (List Char)}

/-! ## The same directories -/

/-- The directories of two trees are the same. -/
def SameDirectories (t t' : Tree) : Prop :=
  ∀ l, t'.get? l = some .directory ↔ t.get? l = some .directory

theorem SameDirectories.symm (h : t.SameDirectories t') : t'.SameDirectories t :=
  fun l => (h l).symm

theorem SameDirectories.trans (h : t.SameDirectories t₁) (h' : t₁.SameDirectories t') :
    t.SameDirectories t' :=
  fun l => (h' l).trans (h l)

/-- A file that takes the place of no directory leaves the directories as they
    are. -/
theorem sameDirectories_set (hfree : t.get? l ≠ some .directory) (content : Content) :
    t.SameDirectories (t.set l (.file content)) := by
  intro k
  rw [get?_set hfree]
  split
  · next hk =>
    rw [hk]
    simp [hfree]
  · rfl

/-! ## Ways to directories -/

theorem Walkable.of_append {before after : List (List Char)}
    (h : t.Walkable l (before ++ after)) : t.Walkable l before := by
  induction before generalizing l with
  | nil => trivial
  | cons piece before ih => exact ⟨h.1, h.2.1, ih h.2.2⟩

/-- Idle pieces can be left out of a way. -/
theorem Walkable.filter (h : t.Walkable l parts) :
    t.Walkable l (parts.filter (! Path.isIdle ·)) := by
  induction parts generalizing l with
  | nil => trivial
  | cons piece parts ih =>
    obtain ⟨hdirectory, hshort, hrest⟩ := h
    by_cases hidle : Path.isIdle piece
    · rw [List.filter_cons_of_neg (by simpa using hidle)]
      rw [Location.step, if_pos hidle] at hrest
      exact ih hrest
    · rw [List.filter_cons_of_pos (by simpa using hidle)]
      exact ⟨hdirectory, hshort, ih hrest⟩

/-- A way that ends in a directory can be walked with idle pieces as well. -/
theorem Walkable.of_filter (h : t.Walkable l (parts.filter (! Path.isIdle ·)))
    (hend : t.get? ((parts.filter (! Path.isIdle ·)).foldl Location.step l) = some .directory) :
    t.Walkable l parts := by
  induction parts generalizing l with
  | nil => trivial
  | cons piece parts ih =>
    by_cases hidle : Path.isIdle piece
    · rw [List.filter_cons_of_neg (by simpa using hidle)] at h hend
      have hstep : l.step piece = l := by rw [Location.step, if_pos hidle]
      refine ⟨?_, ?_, ?_⟩
      · -- The idle piece stays in the directory of the next step, or of the end.
        cases hsteps : parts.filter (! Path.isIdle ·) with
        | nil => simpa [hsteps] using hend
        | cons next rest =>
          rw [hsteps] at h
          exact h.1
      · rcases Bool.or_eq_true_iff.1 hidle with hnil | hdot
        · simp [of_decide_eq_true hnil, longestName]
        · rw [of_decide_eq_true hdot]
          decide
      · rw [hstep]
        exact ih h hend
    · rw [List.filter_cons_of_pos (by simpa using hidle)] at h hend
      exact ⟨h.1, h.2.1, ih h.2.2 hend⟩

/-- The steps of a path lead to a directory. -/
structure Reaches (t : Tree) (p : Path) : Prop where
  /-- There is a directory before each of the steps. -/
  way : t.Walkable p.start p.steps
  /-- There is one where they lead to. -/
  directory : t.get? p.location = some .directory

theorem Reaches.congr (h : t.Reaches p) (hsteps : q.steps = p.steps) (hstart : q.start = p.start) :
    t.Reaches q where
  way := by rw [hsteps, hstart]; exact h.way
  directory := by
    rw [Path.location_eq, hsteps, hstart, ← Path.location_eq]
    exact h.directory

theorem Reaches.of_sameDirectories (h : t.Reaches p) (hsame : t.SameDirectories t') :
    t'.Reaches p where
  way := h.way.mono fun k => (hsame k).2
  directory := (hsame _).2 h.directory

/-- The way to anything leads through the directory it lies in. -/
theorem reaches_of_locate (h : t.locate p = .ok l) {last : List Char}
    (hp : p.steps = q.steps ++ [last]) (hstart : q.start = p.start) : t.Reaches q := by
  obtain ⟨⟨start, steps⟩, hpieces, hwalk⟩ := bind_eq_ok_iff.1 h
  obtain ⟨rfl, rfl⟩ := pieces_eq_ok hpieces
  have hway : t.Walkable p.start p.steps := (walk_eq_ok_iff.1 hwalk).1.filter
  rw [hp, walkable_concat, ← hstart, ← Path.location_eq] at hway
  exact ⟨hway.1, hway.2.1⟩

/-! ## Making directories -/

theorem hasDirectory_iff : t.hasDirectory p ↔
    t.locate p = .ok p.location ∧ t.get? p.location = some .directory := by
  rw [hasDirectory, stat]
  cases hlocate : t.locate p with
  | error fault => simp [bind, Except.bind]
  | ok l =>
    obtain rfl := location_of_locate hlocate
    cases hentry : t.get? p.location with
    | none => simp [bind, Except.bind, hentry]
    | some entry =>
      cases entry with
      | directory => simp [bind, Except.bind, hentry]
      | file content => simp [bind, Except.bind, hentry]

theorem hasDirectory_congr (h : t.SameDirectories t') (hp : t.hasDirectory p) :
    t'.hasDirectory p := by
  rw [hasDirectory_iff] at hp ⊢
  exact ⟨locate_mono (fun k => (h k).2) hp.1, (h _).2 hp.2⟩

theorem reaches_of_hasDirectory (h : t.hasDirectory p) : t.Reaches p := by
  obtain ⟨hlocate, hdirectory⟩ := hasDirectory_iff.1 h
  obtain ⟨⟨start, steps⟩, hpieces, hwalk⟩ := bind_eq_ok_iff.1 hlocate
  obtain ⟨rfl, rfl⟩ := pieces_eq_ok hpieces
  exact ⟨(walk_eq_ok_iff.1 hwalk).1.filter, hdirectory⟩

/-- A path can be followed to the directory that its last piece lies in. -/
theorem exists_target (h : t.Reaches p) {start : Location} {steps : List (List Char)}
    (hpieces : pieces p = .ok (start, steps)) : ∃ target, t.target p = .ok target := by
  obtain ⟨rfl, rfl⟩ := pieces_eq_ok hpieces
  have hway : t.Walkable p.start (splitAt '/' p.text.toList) :=
    .of_filter h.way (by rw [← Path.steps, ← Path.location_eq]; exact h.directory)
  rw [target, hpieces]
  cases hlast : (splitAt '/' p.text.toList).reverse.dropWhile (· = []) with
  | nil =>
    simp only [bind, Except.bind, hlast]
    exact ⟨_, rfl⟩
  | cons last before =>
    -- The pieces up to the last one that is not empty are a start of the way.
    obtain ⟨rest, hrest⟩ : (last :: before).reverse <+: splitAt '/' p.text.toList := by
      rw [← List.reverse_suffix, List.reverse_reverse, ← hlast]
      exact List.dropWhile_suffix _
    rw [← hrest, List.reverse_cons] at hway
    obtain ⟨hbefore, hdirectory, hshort⟩ := walkable_concat.1 hway.of_append
    have hwalk : t.walk p.start before.reverse = .ok (before.reverse.foldl Location.step p.start) :=
      walk_eq_ok_iff.2 ⟨hbefore, rfl⟩
    have hneed : t.needDirectory (before.reverse.foldl Location.step p.start) = .ok () :=
      needDirectory_eq_ok_iff.2 hdirectory
    simp only [bind, Except.bind, hlast, hwalk, hneed, if_neg hshort]
    exact ⟨_, rfl⟩

/-- No directory is made where there is one, and none before it is missing. -/
theorem makeDirectory_of_reaches (h : t.Reaches p) (hne : p.text ≠ "") :
    ∃ fault, t.makeDirectory p = .error fault ∧ fault ≠ .notFound := by
  cases hpieces : pieces p with
  | error fault =>
    refine ⟨fault, by rw [makeDirectory, target, hpieces]; rfl, ?_⟩
    -- Of the faults of a path only that of the empty one is told as missing.
    rintro rfl
    simp only [pieces, String.toList_eq_nil_iff, hne, if_false] at hpieces
    split at hpieces
    · simp at hpieces
    · split at hpieces
      · simp at hpieces
      · simp at hpieces
  | ok r =>
    obtain ⟨target, htarget⟩ := exists_target h hpieces
    refine ⟨.exists, ?_, by decide⟩
    rw [makeDirectory, htarget]
    simp only [bind, Except.bind]
    split
    · rfl
    · next l hl =>
      obtain ⟨rfl, _⟩ := location_of_target htarget hl
      rw [if_pos (by rw [h.directory]; rfl)]

theorem of_keep_error {fault : FileFault}
    (h : makeDirectoriesWithin.keep p t (.error fault) = .ok t') : t' = t ∧ t.hasDirectory p := by
  rw [makeDirectoriesWithin.keep] at h
  split at h
  · next hthere => exact ⟨(Except.ok.inj h).symm, hthere⟩
  · simp at h

/-- Where the directories of a path are there, none are made. -/
theorem of_makeDirectories (h : t.Reaches p) (hmade : t.makeDirectories p = .ok t') :
    t' = t ∧ (p.text = "" ∨ t.hasDirectory p) := by
  rw [makeDirectories, makeDirectoriesWithin] at hmade
  by_cases hempty : p.text = ""
  · rw [if_pos hempty] at hmade
    exact ⟨(Except.ok.inj hmade).symm, .inl hempty⟩
  · obtain ⟨fault, hfault, hfound⟩ := makeDirectory_of_reaches h hempty
    rw [if_neg hempty, hfault] at hmade
    cases fault with
    | notFound => exact absurd rfl hfound
    | _ =>
      -- Every other fault is overlooked if there is a directory.
      obtain ⟨rfl, hthere⟩ := of_keep_error hmade
      exact ⟨rfl, .inr hthere⟩

theorem makeDirectories_of_empty (h : p.text = "") : t.makeDirectories p = .ok t := by
  rw [makeDirectories, makeDirectoriesWithin, if_pos h]

theorem makeDirectories_of_hasDirectory (h : t.hasDirectory p) (hne : p.text ≠ "") :
    t.makeDirectories p = .ok t := by
  obtain ⟨fault, hfault, hfound⟩ := makeDirectory_of_reaches (reaches_of_hasDirectory h) hne
  rw [makeDirectories, makeDirectoriesWithin, if_neg hne, hfault]
  cases fault with
  | notFound => exact absurd rfl hfound
  | _ => exact if_pos h

/-! ## Writing -/

theorem target_mono (hkeep : ∀ k, t.get? k = some .directory → t'.get? k = some .directory)
    {target : Target} (h : t.target p = .ok target) : t'.target p = .ok target := by
  obtain ⟨⟨start, steps⟩, hpieces, h⟩ := bind_eq_ok_iff.1 h
  refine bind_eq_ok_iff.2 ⟨_, hpieces, ?_⟩
  dsimp only at h ⊢
  split at h
  · exact h
  · obtain ⟨directory, hwalk, h⟩ := bind_eq_ok_iff.1 h
    obtain ⟨u, hdirectory, h⟩ := bind_eq_ok_iff.1 h
    obtain ⟨hway, hl⟩ := walk_eq_ok_iff.1 hwalk
    have hdirectory : t'.needDirectory directory = .ok u :=
      needDirectory_eq_ok_iff.2 (hkeep _ (needDirectory_eq_ok_iff.1 hdirectory))
    exact bind_eq_ok_iff.2 ⟨directory, walk_eq_ok_iff.2 ⟨hway.mono hkeep, hl⟩,
      bind_eq_ok_iff.2 ⟨u, hdirectory, h⟩⟩

/-- A text can be put at a path. -/
structure Admits (t : Tree) (p : Path) : Prop where
  /-- The directory that it goes to is there, if it is told by the path. -/
  parent : ∀ q, p.parent? = some q → q.text = "" ∨ t.hasDirectory q
  /-- The path ends with a name. -/
  target : ∃ target, t.target p = .ok target ∧ target.location? = some p.location ∧
    target.trailing = false
  /-- There is no directory in its place. -/
  free : t.get? p.location ≠ some .directory

/-- It depends on directories only whether a text can be put at a path. -/
theorem Admits.congr (h : t.Admits p) (hsame : t.SameDirectories t') : t'.Admits p where
  parent q hq := (h.parent q hq).imp_right (hasDirectory_congr hsame)
  target := by
    obtain ⟨target, htarget, hrest⟩ := h.target
    exact ⟨target, target_mono (fun k => (hsame k).2) htarget, hrest⟩
  free hdirectory := h.free ((hsame _).1 hdirectory)

/-- The tree with a text put at a path. -/
def put (t : Tree) (w : Path × String) : Tree :=
  t.set w.1.location (.file (.text w.2))

theorem Admits.write (h : t.Admits p) (text : String) :
    t.write p (.text text) = .ok (t.put (p, text)) := by
  obtain ⟨target, htarget, hl, htrailing⟩ := h.target
  refine bind_eq_ok_iff.2 ⟨target, htarget, ?_⟩
  simp only [hl, htrailing, h.free, or_self, Bool.false_eq_true, if_false, put]

theorem target_of_write {content : Content} (h : t.write p content = .ok t') :
    ∃ target, t.target p = .ok target ∧ target.location? = some p.location ∧
      target.trailing = false := by
  obtain ⟨target, htarget, h⟩ := bind_eq_ok_iff.1 h
  split at h
  · simp at h
  · next l hl =>
    obtain ⟨rfl, _⟩ := location_of_target htarget hl
    exact ⟨target, htarget, hl, Bool.eq_false_iff.2 fun htrailing => by simp [htrailing] at h⟩

theorem Admits.on_put (h : t.Admits p) (text : String) (making writing : FileAction) :
    Work.on (do Work.makeParent p making; Work.writeText p text writing) t =
      (.ok (), t.put (p, text)) := by
  have hparent : (Work.makeParent p making).on t = (.ok (), t) := by
    rw [Work.on_makeParent]
    cases hq : p.parent? with
    | none => rfl
    | some q =>
      have hmade : t.makeDirectories q = .ok t := by
        by_cases hempty : q.text = ""
        · exact makeDirectories_of_empty hempty
        · exact makeDirectories_of_hasDirectory ((h.parent q hq).resolve_left hempty) hempty
      simp only [hmade]
  rw [Work.on_bind, hparent]
  dsimp only
  rw [Work.on_writeText, h.write]

/-- What was put at a path could be put there without making directories, if
    those of the path were there. -/
theorem admits_of_put (hparent : ∀ q, p.parent? = some q → t.Reaches q) {text : String}
    {making writing : FileAction} {u : Unit}
    (h : Work.on (do Work.makeParent p making; Work.writeText p text writing) t = (.ok u, t')) :
    t.Admits p := by
  obtain ⟨_, t₁, hmaking, hwriting⟩ := Work.on_bind_eq_ok_iff.1 h
  have hdirectories : t₁ = t ∧ ∀ q, p.parent? = some q → q.text = "" ∨ t.hasDirectory q := by
    rw [Work.on_makeParent] at hmaking
    split at hmaking
    · next hnone => exact ⟨(Prod.mk.inj hmaking).2.symm, fun q hq => by simp [hnone] at hq⟩
    · next parent hp =>
      split at hmaking
      · next made hmade =>
        obtain ⟨rfl, hthere⟩ := of_makeDirectories (hparent parent hp) hmade
        refine ⟨(Prod.mk.inj hmaking).2.symm, fun q hq => ?_⟩
        obtain rfl := Option.some.inj (hp.symm.trans hq)
        exact hthere
      · simp at hmaking
  obtain ⟨rfl, hthere⟩ := hdirectories
  rw [Work.on_writeText] at hwriting
  split at hwriting
  · next hwrite =>
    obtain ⟨_, _, hfree⟩ := set_of_write hwrite
    exact ⟨hthere, target_of_write hwrite, hfree⟩
  · simp at hwriting

theorem Admits.sameDirectories_put (h : t.Admits p) (text : String) :
    t.SameDirectories (t.put (p, text)) :=
  sameDirectories_set h.free _

/-! ## What is left -/

variable {writes : List (Path × String)} {text : String} {k : Location}

theorem sameDirectories_foldl_put (h : ∀ w ∈ writes, t.Admits w.1) :
    t.SameDirectories (writes.foldl put t) := by
  induction writes generalizing t with
  | nil => exact fun l => .rfl
  | cons w writes ih =>
    obtain ⟨hw, hwrites⟩ := List.forall_mem_cons.1 h
    have hsame := hw.sameDirectories_put w.2
    exact hsame.trans (ih fun v hv => (hwrites v hv).congr hsame)

theorem get?_foldl_put (h : ∀ w ∈ writes, t.Admits w.1) (hk : ∀ w ∈ writes, w.1.location ≠ k) :
    (writes.foldl put t).get? k = t.get? k := by
  induction writes generalizing t with
  | nil => rfl
  | cons w writes ih =>
    obtain ⟨hw, hwrites⟩ := List.forall_mem_cons.1 h
    obtain ⟨hne, hk⟩ := List.forall_mem_cons.1 hk
    have hsame := hw.sameDirectories_put w.2
    rw [List.foldl_cons, ih (fun v hv => (hwrites v hv).congr hsame) hk, put, get?_set hw.free,
      if_neg (Ne.symm hne)]

/-- A file is read as before if nothing was put in its place. -/
theorem read_foldl_put (h : ∀ w ∈ writes, t.Admits w.1)
    (hp : ∀ w ∈ writes, w.1.location ≠ p.location) (hread : t.read p = .ok text) :
    (writes.foldl put t).read p = .ok text := by
  obtain ⟨hlocate, hfile⟩ := read_eq_ok_iff.1 hread
  have hkeep := sameDirectories_foldl_put h
  exact read_eq_ok_iff.2 ⟨locate_mono (fun k => (hkeep k).2) hlocate,
    (get?_foldl_put h hp).trans hfile⟩

theorem hasFile_set {content : Content} :
    (t.set l (.file content)).HasFile k ↔ k = l ∨ t.HasFile k := by
  have hentries (entries : List (Location × Entry)) :
      (∃ c, (k, Entry.file c) ∈ set.go l (.file content) entries) ↔
        k = l ∨ ∃ c, (k, Entry.file c) ∈ entries := by
    induction entries with
    | nil => simp [set.go]
    | cons e entries ih =>
      obtain ⟨m, e⟩ := e
      rw [set.go]
      by_cases hm : m = l
      · -- The entry is replaced, whatever else it was.
        by_cases hk : k = l
        · simp [hm, hk, exists_or]
        · simp [hm, hk]
      · simp only [if_neg hm, List.mem_cons, exists_or, ih]
        exact or_left_comm
  exact hentries t.entries

theorem hasFile_foldl_put : (writes.foldl put t).HasFile k ↔
    (∃ w ∈ writes, w.1.location = k) ∨ t.HasFile k := by
  induction writes generalizing t with
  | nil => simp
  | cons w writes ih =>
    rw [List.foldl_cons, ih, put, hasFile_set, eq_comm (a := k)]
    simp only [List.mem_cons, exists_eq_or_imp, or_assoc, or_left_comm]

end Tree

/-- The file at the path of this name would be found for a URL. -/
def Path.Serves (p media : Path) (url : String) : Prop :=
  ∃ directory name file, Media.sought? media url = some (directory, name) ∧
    p.location = directory.location.child file ∧ Media.isStem name file

namespace Tree

variable {t : Tree} {writes : List (Path × String)} {media : Path} {url : String}

/-- What was put into a tree is found for the URLs that it serves, and the
    others are found as before. -/
theorem hasMedia_foldl_put (h : ∀ w ∈ writes, t.Admits w.1)
    (hurl : t.hasMedia media url ∨ ∀ w ∈ writes, ¬ w.1.Serves media url) :
    (writes.foldl put t).hasMedia media url = t.hasMedia media url := by
  have hkeep := sameDirectories_foldl_put h
  rw [Bool.eq_iff_iff, hasMedia_iff, hasMedia_iff]
  constructor
  · rintro ⟨directory, name, file, hsought, hlocate, hentry, hfile, hstem⟩
    rcases hasFile_foldl_put.1 hfile with ⟨w, hw, hlocation⟩ | hfile
    · have hserves : w.1.Serves media url := ⟨directory, name, file, hsought, hlocation, hstem⟩
      exact hasMedia_iff.1 (hurl.resolve_right fun hnone => hnone w hw hserves)
    · exact ⟨directory, name, file, hsought, locate_mono (fun k => (hkeep k).1) hlocate,
        (hkeep _).1 hentry, hfile, hstem⟩
  · rintro ⟨directory, name, file, hsought, hlocate, hentry, hfile, hstem⟩
    exact ⟨directory, name, file, hsought, locate_mono (fun k => (hkeep k).2) hlocate,
      (hkeep _).2 hentry, hasFile_foldl_put.2 (.inr hfile), hstem⟩

end Tree

/-! ## Drafts -/

namespace Run

variable {options : RunOptions} {id : String} {t t' : Tree} {draft : Draft}

theorem on_outputs {outputs : List Output} (h : ∀ o ∈ outputs, t.Admits o.source.output) :
    Work.on (outputs.forM writeOutput) t =
      (.ok (), (outputs.map fun o => (o.source.output, o.text)).foldl Tree.put t) := by
  induction outputs generalizing t with
  | nil => rfl
  | cons o outputs ih =>
    obtain ⟨ho, houtputs⟩ := List.forall_mem_cons.1 h
    have hsame := ho.sameDirectories_put o.text
    have hcons : (o :: outputs).forM writeOutput =
        (writeOutput o >>= fun _ => outputs.forM writeOutput) := rfl
    rw [hcons, Work.on_bind, writeOutput, ho.on_put]
    exact ih fun p hp => (houtputs p hp).congr hsame

theorem forall_writes_iff {P : Path → Prop} : (∀ w ∈ writes options id draft, P w.1) ↔
    (∀ o ∈ draft.outputs, P o.source.output) ∧ P options.exportPath := by
  rw [writes, List.forall_mem_append, List.forall_mem_map, List.forall_mem_singleton]

/-- A draft is written if all of its paths admit a text. -/
theorem on_commit (hdry : ¬ options.dry) (h : ∀ w ∈ writes options id draft, t.Admits w.1) :
    (commit options id draft).on t =
      (.ok (draft.report id), (writes options id draft).foldl Tree.put t) := by
  obtain ⟨houtputs, hexport⟩ := forall_writes_iff.1 h
  have hsame := Tree.sameDirectories_foldl_put (List.forall_mem_append.1 h).1
  have hwrite : (writeDraft options id draft).on t =
      (.ok (draft.report id).toExported, (writes options id draft).foldl Tree.put t) := by
    rw [writeDraft, if_neg hdry, Work.on_bind, on_outputs houtputs]
    dsimp only
    rw [publishExports, Work.on_bind, publish, (hexport.congr hsame).on_put, writes,
      List.foldl_append]
    simp only [Publication.length_contributions_ofContributions]
    rfl
  rw [commit, Work.on_bind, hwrite, Bool.eq_false_iff.2 hdry]
  rfl

theorem admits_of_outputs {outputs : List Output} {u : Unit}
    (hparents : ∀ o ∈ outputs, ∀ q, o.source.output.parent? = some q → t.Reaches q)
    (h : Work.on (outputs.forM writeOutput) t = (.ok u, t')) :
    ∀ o ∈ outputs, t.Admits o.source.output := by
  induction outputs generalizing t with
  | nil => exact fun _ ho => absurd ho List.not_mem_nil
  | cons o outputs ih =>
    rw [List.forall_mem_cons] at hparents ⊢
    obtain ⟨_, t₁, hfirst, hrest⟩ := Work.on_bind_eq_ok_iff.1 h
    have ho := Tree.admits_of_put hparents.1 hfirst
    rw [writeOutput, ho.on_put] at hfirst
    obtain rfl := (Prod.mk.inj hfirst).2
    have hsame := ho.sameDirectories_put o.text
    have hothers := ih (fun p hp q hq => (hparents.2 p hp q hq).of_sameDirectories hsame) hrest
    exact ⟨ho, fun p hp => (hothers p hp).congr hsame.symm⟩

/-- A draft that was written, where the directories of all its paths were there,
    had paths that admit a text. -/
theorem admits_of_commit (hdry : ¬ options.dry) {report : Report}
    (houtputs : ∀ o ∈ draft.outputs, ∀ q, o.source.output.parent? = some q → t.Reaches q)
    (hexport : ∀ q, options.exportPath.parent? = some q → t.Reaches q)
    (h : (commit options id draft).on t = (.ok report, t')) :
    ∀ w ∈ writes options id draft, t.Admits w.1 := by
  obtain ⟨_, _, hwrite, _⟩ := Work.on_bind_eq_ok_iff.1 h
  rw [writeDraft, if_neg hdry] at hwrite
  obtain ⟨_, t₁, hwritten, hexported⟩ := Work.on_bind_eq_ok_iff.1 hwrite
  obtain ⟨_, t₂, hpublished, _⟩ := Work.on_bind_eq_ok_iff.1 hexported
  have hadmits := admits_of_outputs houtputs hwritten
  rw [on_outputs hadmits] at hwritten
  obtain rfl := (Prod.mk.inj hwritten).2
  have hsame : t.SameDirectories
      ((draft.outputs.map fun o => (o.source.output, o.text)).foldl Tree.put t) :=
    Tree.sameDirectories_foldl_put (List.forall_mem_map.2 hadmits)
  rw [publish] at hpublished
  have hexport := Tree.admits_of_put
    (fun q hq => (hexport q hq).of_sameDirectories hsame) hpublished
  exact forall_writes_iff.2 ⟨hadmits, hexport.congr hsame.symm⟩

end Run

end PaperGraph
