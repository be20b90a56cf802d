import PaperGraph.Proofs.Locations

/-!
# Writing

What is left of a tree when texts were written into it one after the other,
each with the directories that its path needs.

* `Path.Above`: the paths at which directories may have to be made;
* `Tree.Deepens`: nothing has changed at a location, or a wanted directory was
  made where there was nothing (`Tree.deepens_of_makeDirectories`);
* `Tree.Frame`: a relation that holds of all that writes texts and makes
  directories;
* `lastText`: the last of the texts written at a location;
* `Tree.Written`: the last texts are there, the paths lead to them, and nothing
  else has changed but for missing directories. Writing first some texts and
  then others writes all of them (`Tree.Written.append`).
-/

namespace PaperGraph

/-- A path above another one: its parent, and whatever is above that. -/
inductive Path.Above (p : Path) : Path → Prop where
  | parent {q : Path} (h : p.parent? = some q) : p.Above q
  | further {q r : Path} (hq : p.Above q) (h : q.parent? = some r) : p.Above r

/-- A location of a path above another one. -/
def Location.IsAbove (l : Location) (p : Path) : Prop :=
  ∃ q, p.Above q ∧ q.location = l

namespace Tree

variable {t t₁ t' : Tree} {l : Location} {p q : Path} {wanted wanted' : Prop}

/-! ## Directories -/

/-- Nothing has changed at a location, or a directory was made there, which was
    wanted and where there was nothing. -/
def Deepens (t t' : Tree) (l : Location) (wanted : Prop) : Prop :=
  t'.get? l = t.get? l ∨ t.get? l = none ∧ t'.get? l = some .directory ∧ wanted

theorem Deepens.refl : t.Deepens t l wanted :=
  .inl rfl

theorem Deepens.mono (hwanted : wanted → wanted') (h : t.Deepens t' l wanted) :
    t.Deepens t' l wanted' :=
  h.imp_right fun ⟨hnone, hdirectory, hw⟩ => ⟨hnone, hdirectory, hwanted hw⟩

theorem Deepens.trans (h : t.Deepens t₁ l wanted) (h' : t₁.Deepens t' l wanted) :
    t.Deepens t' l wanted := by
  rcases h' with hsame | ⟨hnone, hdirectory, hw⟩
  · rw [Deepens, hsame]
    exact h
  · rcases h with hsame | ⟨_, hdirectory', _⟩
    · exact .inr ⟨by rw [← hsame, hnone], hdirectory, hw⟩
    · -- A directory cannot be made twice.
      rw [hnone] at hdirectory'
      simp at hdirectory'

theorem Deepens.keeps (h : t.Deepens t' l wanted) (hdirectory : t.get? l = some .directory) :
    t'.get? l = some .directory := by
  rcases h with hsame | ⟨hnone, _⟩
  · rw [hsame, hdirectory]
  · rw [hdirectory] at hnone
    simp at hnone

theorem deepens_of_makeDirectory (h : t.makeDirectory p = .ok t') (l : Location) :
    t.Deepens t' l (p.location = l) := by
  obtain ⟨rfl, hnone⟩ := set_of_makeDirectory h
  have hfree : t.get? p.location ≠ some .directory := by simp [hnone]
  rw [Deepens, get?_set hfree]
  by_cases hl : l = p.location
  · rw [if_pos hl, hl]
    exact .inr ⟨hnone, rfl, rfl⟩
  · rw [if_neg hl]
    exact .inl rfl

theorem eq_of_keep {made : Except FileFault Tree}
    (h : makeDirectoriesWithin.keep p t made = .ok t') : made = .ok t' ∨ t' = t := by
  cases made with
  | ok made => exact .inl h
  | error fault =>
    rw [makeDirectoriesWithin.keep] at h
    split at h
    · exact .inr (Except.ok.inj h).symm
    · simp at h

/-- What holds whenever a directory is made, at a path `q` or above it, holds of
    all that makes the directories of `q`. -/
theorem rel_of_makeDirectories {R : Tree → Tree → Prop} {P : Path → Prop} (hrefl : ∀ t, R t t)
    (htrans : ∀ t t₁ t', R t t₁ → R t₁ t' → R t t')
    (hparent : ∀ q r, P q → q.parent? = some r → P r)
    (hmake : ∀ t t' q, P q → t.makeDirectory q = .ok t' → R t t') (hq : P q)
    (h : t.makeDirectories q = .ok t') : R t t' := by
  rw [makeDirectories] at h
  generalize q.text.length + 1 = depth at h
  induction depth generalizing q t' with
  | zero =>
    obtain rfl := Except.ok.inj h
    exact hrefl t
  | succ depth ih =>
    rw [makeDirectoriesWithin] at h
    split at h
    · obtain rfl := Except.ok.inj h
      exact hrefl t
    · split at h
      · next made hmade =>
        obtain rfl := Except.ok.inj h
        exact hmake _ _ q hq hmade
      · -- Above all the directory of `q` was missing, and was made first.
        split at h
        · simp at h
        · next r hr =>
          obtain ⟨t₁, habove, h⟩ := bind_eq_ok_iff.1 h
          have habove := ih (hparent q r hq hr) habove
          rcases eq_of_keep h with hmade | rfl
          · exact htrans _ _ _ habove (hmake _ _ q hq hmade)
          · exact habove
      · rcases eq_of_keep h with h | rfl
        · simp at h
        · exact hrefl _

/-- Directories are made for a path at paths above it. -/
theorem deepens_of_makeDirectories (hq : p.parent? = some q)
    (h : t.makeDirectories q = .ok t') (l : Location) : t.Deepens t' l (l.IsAbove p) :=
  rel_of_makeDirectories (P := p.Above) (R := fun t t' => t.Deepens t' l (l.IsAbove p))
    (fun _ => .refl) (fun _ _ _ => .trans) (fun _ _ => .further)
    (fun _ _ q hq hmade => (deepens_of_makeDirectory hmade l).mono fun hl => ⟨q, hq, hl⟩)
    (.parent hq) h

/-! ## Frames -/

/-- A relation of what there was to what is left of it, whenever a text is
    written at a path of some kind or a directory is made, and whatever else is
    done in this way after that. -/
structure Frame (R : Tree → Tree → Prop) (P : Path → Prop) : Prop where
  /-- Nothing may be done. -/
  refl : ∀ t, R t t
  /-- One thing may be done after the other. -/
  trans : ∀ t t₁ t', R t t₁ → R t₁ t' → R t t'
  /-- A text may be written. -/
  write : ∀ {t t' p text}, P p → t.write p (.text text) = .ok t' → R t t'
  /-- A directory may be made. -/
  make : ∀ {t t' p}, t.makeDirectory p = .ok t' → R t t'

theorem Frame.makeDirectories {R : Tree → Tree → Prop} {P : Path → Prop} (hR : Frame R P)
    (h : t.makeDirectories p = .ok t') : R t t' :=
  rel_of_makeDirectories (P := fun _ => True) hR.refl hR.trans (fun _ _ _ _ => trivial)
    (fun _ _ _ _ => hR.make) trivial h

end Tree

/-! ## Texts -/

/-- The last of the texts that were written at a location. -/
def lastText (writes : List (Path × String)) (l : Location) : Option String :=
  (writes.reverse.find? (·.1.location = l)).map (·.2)

variable {writes further : List (Path × String)} {l : Location}

theorem lastText_append :
    lastText (writes ++ further) l = (lastText further l).or (lastText writes l) := by
  rw [lastText, List.reverse_append, List.find?_append, Option.map_or]
  rfl

theorem lastText_singleton {p : Path} {text : String} :
    lastText [(p, text)] l = if p.location = l then some text else none := by
  by_cases h : p.location = l
  · simp [lastText, h]
  · simp [lastText, h]

theorem exists_lastText {w : Path × String} (h : w ∈ writes) :
    ∃ text, lastText writes w.1.location = some text := by
  have hsome : (writes.reverse.find? (·.1.location = w.1.location)).isSome :=
    List.find?_isSome.2 ⟨w, List.mem_reverse.2 h, by simp⟩
  obtain ⟨v, hv⟩ := Option.isSome_iff_exists.1 hsome
  exact ⟨v.2, by rw [lastText, hv, Option.map_some]⟩

/-- What holds of a tree `t` and the tree `t'` that is left of it when texts
    were written to paths. -/
structure Tree.Written (t : Tree) (writes : List (Path × String)) (t' : Tree) : Prop where
  /-- The last text at every location is there. -/
  holds : ∀ l text, lastText writes l = some text → t'.get? l = some (.file (.text text))
  /-- Elsewhere nothing has changed, but for missing directories above the
      paths. -/
  frame : ∀ l, lastText writes l = none →
    t.Deepens t' l (∃ w ∈ writes, l.IsAbove w.1)
  /-- The paths lead to their locations. -/
  leads : ∀ w ∈ writes, t'.locate w.1 = .ok w.1.location
  /-- Directories are still there. -/
  keeps : ∀ l, t.get? l = some .directory → t'.get? l = some .directory

namespace Tree.Written

variable {t t₁ t' : Tree} {p : Path} {text : String}

theorem nil : t.Written [] t where
  holds _ _ h := by simp [lastText] at h
  frame _ _ := .refl
  leads _ hw := absurd hw List.not_mem_nil
  keeps _ h := h

theorem append (h : t.Written writes t₁) (h' : t₁.Written further t') :
    t.Written (writes ++ further) t' where
  holds l text hl := by
    rw [lastText_append] at hl
    cases hlast : lastText further l with
    | some last =>
      rw [hlast, Option.some_or] at hl
      exact h'.holds l text (hlast.trans hl)
    | none =>
      -- A file that is not written again is still there: directories are only
      -- made where there is nothing.
      rw [hlast, Option.none_or] at hl
      have hfile := h.holds l text hl
      rcases h'.frame l hlast with hsame | ⟨hnone, _⟩
      · rw [hsame, hfile]
      · rw [hfile] at hnone
        simp at hnone
  frame l hl := by
    rw [lastText_append, Option.or_eq_none_iff] at hl
    have hfirst := (h.frame l hl.2).mono fun ⟨w, hw, habove⟩ =>
      (⟨w, List.mem_append_left further hw, habove⟩ : ∃ w ∈ writes ++ further, l.IsAbove w.1)
    have hthen := (h'.frame l hl.1).mono fun ⟨w, hw, habove⟩ =>
      (⟨w, List.mem_append_right writes hw, habove⟩ : ∃ w ∈ writes ++ further, l.IsAbove w.1)
    exact hfirst.trans hthen
  leads w hw := by
    rcases List.mem_append.1 hw with hw | hw
    · exact locate_mono h'.keeps (h.leads w hw)
    · exact h'.leads w hw
  keeps l hl := h'.keeps l (h.keeps l hl)

/-- A path to which something was written leads to a file with the last text. -/
theorem read (h : t.Written writes t') {w : Path × String} (hw : w ∈ writes) :
    ∃ text, lastText writes w.1.location = some text ∧ t'.read w.1 = .ok text := by
  obtain ⟨text, htext⟩ := exists_lastText hw
  exact ⟨text, htext, read_eq_ok (h.leads w hw) (h.holds _ _ htext)⟩

/-- A file that is written where directories were made above its path. -/
theorem of_write (hdeepens : ∀ l, t.Deepens t₁ l (l.IsAbove p))
    (h : t₁.write p (.text text) = .ok t') : t.Written [(p, text)] t' := by
  obtain ⟨rfl, hlocate, hfree⟩ := set_of_write h
  have hget (l : Location) :
      (t₁.set p.location (.file (.text text))).get? l =
        if l = p.location then some (.file (.text text)) else t₁.get? l :=
    get?_set hfree l
  have hkeeps (l : Location) (hl : t₁.get? l = some .directory) :
      (t₁.set p.location (.file (.text text))).get? l = some .directory := by
    have hne : l ≠ p.location := fun he => hfree (he ▸ hl)
    rw [hget, if_neg hne, hl]
  refine ⟨fun l last hl => ?_, fun l hl => ?_, fun w hw => ?_, fun l hl => ?_⟩
  · rw [lastText_singleton, Option.ite_none_right_eq_some] at hl
    obtain ⟨rfl, hl⟩ := hl
    rw [hget, if_pos rfl, Option.some.inj hl]
  · rw [lastText_singleton, ite_eq_right_iff] at hl
    have hne : l ≠ p.location := fun he => by simpa using hl he.symm
    rw [Deepens, hget, if_neg hne]
    exact (hdeepens l).mono fun habove => ⟨_, List.mem_singleton_self _, habove⟩
  · obtain rfl := List.mem_singleton.1 hw
    exact locate_mono hkeeps hlocate
  · exact hkeeps l ((hdeepens l).keeps hl)

end Tree.Written

end PaperGraph
