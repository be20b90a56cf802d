import PaperGraph.Proofs.Cutting
import PaperGraph.Proofs.Locations

/-!
# Steps of paths

A path says where it starts and which steps it takes from there; everything
else of its text is idle. Its components, its location, the name it leads to,
its parent and what it is joined to are told by the start and the steps.

* `Path.anchor`, `Path.steps`: where a path starts, and its steps;
* `Path.components_eq`, `Path.location_eq`, `Path.fileName?_eq_some_iff`: what
  they tell;
* `Path.anchor_join`, `Path.steps_join`, `Path.anchor_parent?`: start and steps
  of paths that are built and cut;
* `Path.components_along`, `Path.components_withFileName`: the components that
  these have;
* `Path.location_of_components`: these tell where a path leads.
-/

namespace PaperGraph

open Text

namespace Path

/-- Where a path starts. -/
def anchor (p : Path) : Anchor :=
  (split p.text.toList).1

variable {p q : Path} {anchor : Anchor} {pieces : List (List Char)} {name : String}

/-- The pieces of a path that are not idle. -/
def steps (p : Path) : List (List Char) :=
  (splitAt '/' p.text.toList).filter (! isIdle ·)

theorem not_isIdle_of_mem_steps {piece : List Char} (h : piece ∈ p.steps) : ¬ isIdle piece := by
  simpa using (List.mem_filter.1 h).2

/-! ## Cuts -/

/-- What holds of the anchor and the pieces of a text. -/
structure IsCut (text : List Char) (anchor : Anchor) (pieces : List (List Char)) : Prop where
  /-- The pieces that are not idle are the steps of the text. -/
  steps : (splitAt '/' text).filter (! isIdle ·) = pieces.filter (! isIdle ·)
  /-- There is no separator in a piece. -/
  whole : ∀ piece ∈ pieces, '/' ∉ piece
  /-- The text starts at the root if its anchor is there. -/
  root : text.head? = some '/' ↔ anchor = .root
  /-- Without an anchor the text starts with the first piece, which is a step. -/
  first : anchor = .bare → ∀ piece ∈ pieces.head?, ¬ isIdle piece

theorem isCut_split {text : List Char} (h : split text = (anchor, pieces)) :
    IsCut text anchor pieces := by
  rw [split.eq_def] at h
  split at h
  · obtain ⟨rfl, rfl⟩ := Prod.mk.inj h
    exact ⟨rfl, by simp, by simp, by simp⟩
  · obtain ⟨rfl, rfl⟩ := Prod.mk.inj h
    exact ⟨rfl, fun _ => separator_not_mem, by simp, by simp⟩
  · obtain ⟨rfl, rfl⟩ := Prod.mk.inj h
    exact ⟨rfl, by simp, by simp, by simp⟩
  · obtain ⟨rfl, rfl⟩ := Prod.mk.inj h
    exact ⟨rfl, fun _ => separator_not_mem, by simp, by simp⟩
  · next hnil hroot hdot hcurrent =>
    obtain ⟨rfl, rfl⟩ := Prod.mk.inj h
    refine ⟨rfl, fun _ => separator_not_mem, ?_, fun _ piece hpiece hidle => ?_⟩
    · simp only [reduceCtorEq, iff_false]
      intro hhead
      obtain ⟨rest, hrest⟩ := List.head?_eq_some_iff.1 hhead
      exact hroot rest hrest
    · -- The other cases are those of a text that starts with an idle piece.
      obtain ⟨rest, hrest⟩ := List.head?_eq_some_iff.1 (Option.mem_def.1 hpiece)
      rcases Bool.or_eq_true_iff.1 hidle with hempty | hsingle
      · rw [of_decide_eq_true hempty] at hrest
        rcases eq_or_append_of_splitAt hrest with htext | ⟨more, htext⟩
        · exact hnil htext
        · exact hroot more htext
      · rw [of_decide_eq_true hsingle] at hrest
        rcases eq_or_append_of_splitAt hrest with htext | ⟨more, htext⟩
        · exact hdot htext
        · exact hcurrent more htext

theorem steps_eq (h : split p.text.toList = (anchor, pieces)) :
    p.steps = pieces.filter (! isIdle ·) :=
  (isCut_split h).steps

theorem split_fst (text : List Char) : (split text).1 =
    if text.head? = some '/' then .root
    else if text = ['.'] ∨ ['.', '/'] <+: text then .current else .bare := by
  rw [split.eq_def]
  split
  · simp
  · simp
  · simp
  · simp
  · next hnil hroot hdot hcurrent =>
    have hhead : text.head? ≠ some '/' := fun hhead => by
      obtain ⟨rest, hrest⟩ := List.head?_eq_some_iff.1 hhead
      exact hroot rest hrest
    rw [if_neg hhead, if_neg]
    rintro (hsingle | ⟨rest, hrest⟩)
    · exact hdot hsingle
    · exact hcurrent rest hrest.symm

/-- What follows a separator does not matter to where a path starts. -/
theorem split_append_fst {text : List Char} (hne : text ≠ []) (rest : List Char) :
    (split (text ++ '/' :: rest)).1 = (split text).1 := by
  obtain ⟨c, text, rfl⟩ := List.exists_cons_of_ne_nil hne
  rw [split_fst, split_fst]
  cases text with
  | nil => simp [eq_comm]
  | cons d text => simp

/-- A step starts nowhere in particular. -/
theorem split_fst_of_step {piece : List Char} (hidle : ¬ isIdle piece) (hwhole : '/' ∉ piece) :
    (split piece).1 = .bare := by
  rw [split_fst, if_neg fun hhead => hwhole (List.mem_of_head? hhead), if_neg]
  rintro (rfl | hstarts)
  · exact hidle rfl
  · exact hwhole (hstarts.subset (by simp))

theorem isAbsolute_iff : p.isAbsolute ↔ p.anchor = .root := by
  rcases hsplit : split p.text.toList with ⟨anchor, pieces⟩
  rw [isAbsolute, decide_eq_true_iff, (isCut_split hsplit).root, Path.anchor, hsplit]

/-- What the pieces are put together to. -/
theorem steps_ofPieces (h : ∀ piece ∈ pieces, '/' ∉ piece) :
    (ofPieces anchor pieces).steps = pieces.filter (! isIdle ·) := by
  have hbody : (splitAt '/' (List.intercalate ['/'] pieces)).filter (! isIdle ·) =
      pieces.filter (! isIdle ·) := by
    by_cases hne : pieces = []
    · rw [hne]
      rfl
    · rw [splitAt_intercalate hne h]
  simp only [steps, ofPieces, String.toList_ofList, ← hbody]
  cases anchor with
  | root => rfl
  | current =>
    by_cases hnil : pieces = []
    · rw [if_pos hnil, hnil]
      rfl
    · rw [if_neg hnil]
      rfl
  | bare => rfl

theorem anchor_ofPieces (h : ∀ piece ∈ pieces, '/' ∉ piece)
    (hfirst : anchor = .bare → ∀ piece ∈ pieces.head?, ¬ isIdle piece) :
    (ofPieces anchor pieces).anchor = anchor := by
  simp only [Path.anchor, ofPieces, String.toList_ofList]
  cases anchor with
  | root => simp [split_fst]
  | current =>
    dsimp only
    split
    · rfl
    · simp [split_fst]
  | bare =>
    cases pieces with
    | nil => rfl
    | cons first rest =>
      have hidle := hfirst rfl first rfl
      have hbare := split_fst_of_step hidle (h first List.mem_cons_self)
      have hne : first ≠ [] := by
        rintro rfl
        exact hidle rfl
      cases rest with
      | nil => simpa using hbare
      | cons second rest =>
        rw [List.intercalate_cons_cons, List.append_assoc, List.singleton_append,
          split_append_fst hne, hbare]

/-! ## What the steps tell -/

theorem components_eq (p : Path) :
    p.components = p.anchor.components ++ p.steps.map step := by
  rcases hsplit : split p.text.toList with ⟨anchor, pieces⟩
  rw [components, Path.anchor, hsplit, steps_eq hsplit]

theorem location_eq (p : Path) : p.location = p.steps.foldl Location.step p.start := by
  rw [location, steps]
  generalize p.start = l
  induction splitAt '/' p.text.toList generalizing l with
  | nil => rfl
  | cons piece pieces ih =>
    by_cases hidle : isIdle piece
    · have hstep : l.step piece = l := by rw [Location.step, if_pos hidle]
      rw [List.foldl_cons, hstep, ih, List.filter_cons_of_neg (by simpa using hidle)]
    · rw [List.foldl_cons, ih, List.filter_cons_of_pos (by simpa using hidle), List.foldl_cons]

theorem fileName?_eq_some_iff : p.fileName? = some name ↔
    ∃ piece, p.steps.getLast? = some piece ∧ piece ≠ ['.', '.'] ∧ String.ofList piece = name := by
  rw [fileName?, components_eq, List.getLast?_append, List.getLast?_map]
  cases hlast : p.steps.getLast? with
  | none =>
    -- What is left is the anchor, which is no name.
    cases p.anchor <;> simp [Anchor.components]
  | some piece =>
    rw [Option.map_some, Option.some_or, step]
    by_cases hparent : piece = ['.', '.']
    · simp [hparent]
    · simp [hparent]

theorem fileName?_congr (h : p.steps.getLast? = q.steps.getLast?) : p.fileName? = q.fileName? :=
  Option.ext fun name => by rw [fileName?_eq_some_iff, fileName?_eq_some_iff, h]

theorem components_of_fileName? (h : p.fileName? = some name) :
    p.components = p.components.dropLast ++ [.name name] := by
  have hlast : p.components.getLast? = some (.name name) := by
    rw [fileName?] at h
    split at h
    · next text hlast => rw [hlast, Option.some.inj h]
    · simp at h
  obtain ⟨front, hfront⟩ := List.getLast?_eq_some_iff.1 hlast
  rw [hfront, List.dropLast_concat]

/-- A path that leads to a name leads into the location that the earlier steps
    lead to. -/
theorem location_of_fileName? (h : p.fileName? = some name) :
    p.location = (p.steps.dropLast.foldl Location.step p.start).child name := by
  obtain ⟨piece, hlast, hparent, rfl⟩ := fileName?_eq_some_iff.1 h
  obtain ⟨before, hsteps⟩ := List.getLast?_eq_some_iff.1 hlast
  have hidle : ¬ isIdle piece := not_isIdle_of_mem_steps (List.mem_of_getLast? hlast)
  rw [location_eq, hsteps, List.dropLast_concat, List.foldl_append, List.foldl_cons, List.foldl_nil,
    Location.step, if_neg hidle, if_neg hparent]

/-! ## Building -/

/-- A text that is the name of an entry: a single step, and not to the parent. -/
structure IsName (name : String) : Prop where
  /-- It is not idle. -/
  busy : ¬ isIdle name.toList
  /-- It does not lead to the parent. -/
  down : name.toList ≠ ['.', '.']
  /-- There is no separator in it. -/
  whole : '/' ∉ name.toList

instance : Decidable (IsName name) :=
  decidable_of_iff (¬ isIdle name.toList ∧ name.toList ≠ ['.', '.'] ∧ '/' ∉ name.toList)
    ⟨fun ⟨busy, down, whole⟩ => ⟨busy, down, whole⟩, fun h => ⟨h.busy, h.down, h.whole⟩⟩

theorem IsName.not_isAbsolute (h : IsName name) : ¬ isAbsolute ⟨name⟩ := by
  rw [isAbsolute, decide_eq_true_iff]
  exact fun hhead => h.whole (List.mem_of_head? hhead)

theorem IsName.steps (h : IsName name) : Path.steps ⟨name⟩ = [name.toList] := by
  rw [Path.steps, splitAt_eq_singleton h.whole, List.filter_cons_of_pos (by simpa using h.busy),
    List.filter_nil]

theorem IsName.anchor_eq (h : IsName name) : Path.anchor ⟨name⟩ = .bare :=
  split_fst_of_step h.busy h.whole

theorem IsName.components (h : IsName name) : Path.components ⟨name⟩ = [.name name] := by
  rw [components_eq, h.anchor_eq, h.steps, List.map_singleton, step, if_neg h.down,
    String.ofList_toList]
  rfl

/-- What a path is joined to is walked after it. -/
theorem steps_join (hq : ¬ q.isAbsolute) : (p.join q).steps = p.steps ++ q.steps := by
  rw [join, Bool.eq_false_iff.2 hq, Bool.false_or]
  split
  · next hempty =>
    have hempty : p.text = "" := by simpa using hempty
    rw [steps, steps, hempty]
    rfl
  · split
    · next hslash =>
      obtain ⟨before, hbefore⟩ := stripEnd?_isSome_iff.1 hslash
      rw [steps, steps, steps, String.toList_append, hbefore, List.append_assoc,
        List.singleton_append, splitAt_append, splitAt_append, List.filter_append,
        List.filter_append]
      simp [splitAt, isIdle]
    · rw [steps, steps, steps, String.toList_append, String.toList_append, List.append_assoc]
      change List.filter _ (splitAt '/' (p.text.toList ++ '/' :: q.text.toList)) = _
      rw [splitAt_append, List.filter_append]

theorem isAbsolute_join (hq : ¬ q.isAbsolute) : (p.join q).isAbsolute = p.isAbsolute := by
  rw [join, Bool.eq_false_iff.2 hq, Bool.false_or]
  split
  · next hempty =>
    have hempty : p.text = "" := by simpa using hempty
    rw [Bool.eq_false_iff.2 hq, isAbsolute, hempty]
    rfl
  · next hne =>
    have hne : p.text.toList ≠ [] := by simpa using hne
    obtain ⟨c, cs, htext⟩ := List.exists_cons_of_ne_nil hne
    split
    · rw [isAbsolute, isAbsolute, String.toList_append, htext, List.cons_append, List.head?_cons,
        List.head?_cons]
    · rw [isAbsolute, isAbsolute, String.toList_append, String.toList_append, htext,
        List.cons_append, List.cons_append, List.head?_cons, List.head?_cons]

theorem start_join (hq : ¬ q.isAbsolute) : (p.join q).start = p.start := by
  rw [start, start, isAbsolute_join hq]

/-- Whatever does not start at the root is walked from wherever another path leads. -/
theorem anchor_join_of_ne (hne : p.text ≠ "") (hq : ¬ q.isAbsolute) :
    (p.join q).anchor = p.anchor := by
  rw [join, Bool.eq_false_iff.2 hq, Bool.false_or, if_neg (by simpa using hne)]
  have hne : p.text.toList ≠ [] := by simpa using hne
  split
  · next hslash =>
    obtain ⟨before, hbefore⟩ := stripEnd?_isSome_iff.1 hslash
    rw [Path.anchor, Path.anchor, String.toList_append, hbefore, List.append_assoc,
      List.singleton_append]
    by_cases hnil : before = []
    · rw [hnil, split_fst, split_fst]
      rfl
    · rw [split_append_fst hnil, split_append_fst hnil]
  · rw [Path.anchor, Path.anchor, String.toList_append, String.toList_append, List.append_assoc]
    exact split_append_fst hne _

/-- A path that starts nowhere in particular is walked from the current directory as well. -/
theorem anchor_join (hq : q.anchor = .bare) : (p.join q).anchor = p.anchor := by
  have hroot : ¬ q.isAbsolute := by simp [isAbsolute_iff, hq]
  by_cases hempty : p.text = ""
  · rw [join, hempty, if_pos (by simp), hq, Path.anchor, hempty]
    rfl
  · exact anchor_join_of_ne hempty hroot

theorem components_join (hq : q.anchor = .bare) :
    (p.join q).components = p.components ++ q.components := by
  have hroot : ¬ q.isAbsolute := by simp [isAbsolute_iff, hq]
  rw [components_eq, components_eq, components_eq, anchor_join hq, steps_join hroot, hq,
    List.map_append, List.append_assoc]
  rfl

theorem components_join_name (h : IsName name) :
    (p.join ⟨name⟩).components = p.components ++ [.name name] := by
  rw [components_join h.anchor_eq, h.components]

theorem location_join_name (h : IsName name) :
    (p.join ⟨name⟩).location = p.location.child name := by
  rw [location_eq, location_eq, steps_join h.not_isAbsolute, start_join h.not_isAbsolute, h.steps,
    List.foldl_append, List.foldl_cons, List.foldl_nil, Location.step, if_neg h.busy,
    if_neg h.down, String.ofList_toList]

/-- The path that leads along some names. -/
def ofNames (names : List String) : Path :=
  ⟨"/".intercalate names⟩

/-- The path that leads on along some names. -/
def along (p : Path) (names : List String) : Path :=
  names.foldl (fun p name => p.join ⟨name⟩) p

theorem components_along {names : List String} (h : ∀ name ∈ names, IsName name) :
    (p.along names).components = p.components ++ names.map .name := by
  induction names generalizing p with
  | nil => rw [along, List.foldl_nil, List.map_nil, List.append_nil]
  | cons name names ih =>
    obtain ⟨hname, hnames⟩ := List.forall_mem_cons.1 h
    rw [along, List.foldl_cons, ← along, ih hnames, components_join_name hname, List.map_cons,
      List.append_assoc, List.singleton_append]

theorem fileName?_join_name (h : IsName name) : (p.join ⟨name⟩).fileName? = some name := by
  refine fileName?_eq_some_iff.2 ⟨name.toList, ?_, h.down, String.ofList_toList⟩
  rw [steps_join h.not_isAbsolute, h.steps, List.getLast?_concat]

theorem fileName?_withFileName (h : IsName name) : (p.withFileName name).fileName? = some name := by
  rw [withFileName]
  split
  · exact fileName?_join_name h
  · exact fileName?_join_name h

/-! ## Parents -/

theorem mem_head?_of_starts {α : Type} {l l' : List α} {a : α} (h : l <+: l') (ha : a ∈ l.head?) :
    a ∈ l'.head? := by
  obtain ⟨rest, rfl⟩ := h
  rw [List.head?_append, Option.mem_def.1 ha, Option.some_or]
  rfl

theorem prefix_dropIdleEnd (pieces : List (List Char)) : dropIdleEnd pieces <+: pieces := by
  rw [dropIdleEnd, ← List.reverse_suffix, List.reverse_reverse]
  exact List.dropWhile_suffix _

theorem filter_dropIdleEnd (pieces : List (List Char)) :
    (dropIdleEnd pieces).filter (! isIdle ·) = pieces.filter (! isIdle ·) := by
  have hidle : (pieces.reverse.takeWhile isIdle).filter (! isIdle ·) = [] :=
    List.filter_eq_nil_iff.2 fun piece hpiece => by
      simpa using List.all_eq_true.1 List.all_takeWhile piece hpiece
  rw [dropIdleEnd, List.filter_reverse, ← List.nil_append (List.filter _ (List.dropWhile _ _)),
    ← hidle, ← List.filter_append, List.takeWhile_append_dropWhile, ← List.filter_reverse,
    List.reverse_reverse]

/-- The parent of a path starts where the path does and takes one step less. If the path has
    no step, it is the current directory by a dot, and its parent says so without a word. -/
theorem anchor_parent? (h : p.parent? = some q) :
    (p.steps ≠ [] ∧ q.anchor = p.anchor ∧ q.steps = p.steps.dropLast) ∨
      (p.steps = [] ∧ p.anchor = .current ∧ q = ⟨""⟩) := by
  rcases hsplit : split p.text.toList with ⟨anchor, pieces⟩
  have hcut := isCut_split hsplit
  have hanchor : p.anchor = anchor := congrArg Prod.fst hsplit
  simp only [parent?, hsplit] at h
  rw [steps_eq hsplit, ← filter_dropIdleEnd pieces, hanchor]
  cases hlast : pieces.reverse.dropWhile isIdle with
  | cons last before =>
    left
    rw [hlast] at h
    obtain rfl := Option.some.inj h
    have hpieces : dropIdleEnd pieces = before.reverse ++ [last] := by
      rw [dropIdleEnd, hlast, List.reverse_cons]
    have hidle : ¬ isIdle last := by
      have hhead := List.head?_dropWhile_not isIdle pieces.reverse
      rw [hlast] at hhead
      simpa using hhead
    -- The pieces of the parent are the first ones of the path.
    have hstarts : dropIdleEnd before.reverse <+: pieces :=
      (prefix_dropIdleEnd _).trans ((hpieces ▸ List.prefix_append _ _).trans (prefix_dropIdleEnd _))
    have hwhole : ∀ piece ∈ dropIdleEnd before.reverse, '/' ∉ piece :=
      fun piece hpiece => hcut.whole piece (hstarts.subset hpiece)
    have hfirst (hbare : anchor = .bare) :
        ∀ piece ∈ (dropIdleEnd before.reverse).head?, ¬ isIdle piece := fun piece hpiece =>
      hcut.first hbare piece (mem_head?_of_starts hstarts hpiece)
    have hparent : (before.dropWhile isIdle).reverse = dropIdleEnd before.reverse := by
      rw [dropIdleEnd, List.reverse_reverse]
    rw [hparent, anchor_ofPieces hwhole hfirst, steps_ofPieces hwhole, hpieces, List.filter_append,
      filter_dropIdleEnd, List.filter_cons_of_pos (by simpa using hidle), List.filter_nil,
      List.dropLast_concat]
    exact ⟨by simp, rfl, rfl⟩
  | nil =>
    right
    rw [hlast] at h
    cases anchor with
    | current =>
      obtain rfl := Option.some.inj h
      have hpieces : dropIdleEnd pieces = [] := by
        rw [dropIdleEnd, hlast, List.reverse_nil]
      rw [hpieces]
      exact ⟨rfl, rfl, rfl⟩
    | root => simp at h
    | bare => simp at h

theorem start_congr (h : p.anchor = q.anchor) : p.start = q.start := by
  have habsolute : p.isAbsolute = q.isAbsolute := by
    rw [Bool.eq_iff_iff, isAbsolute_iff, isAbsolute_iff, h]
  rw [start, start, habsolute]

theorem steps_parent? (h : p.parent? = some q) :
    q.steps = p.steps.dropLast ∧ q.start = p.start := by
  obtain ⟨-, hanchor, hsteps⟩ | ⟨hsteps, hanchor, rfl⟩ := anchor_parent? h
  · exact ⟨hsteps, start_congr hanchor⟩
  · have hstart : ¬ p.isAbsolute := by simp [isAbsolute_iff, hanchor]
    rw [hsteps, start, start, Bool.eq_false_iff.2 hstart]
    exact ⟨rfl, rfl⟩

theorem components_parent? (h : p.parent? = some q) : q.components = p.components.dropLast := by
  rw [components_eq, components_eq]
  obtain ⟨hne, hanchor, hsteps⟩ | ⟨hsteps, hanchor, rfl⟩ := anchor_parent? h
  · rw [hanchor, hsteps, List.dropLast_append_of_ne_nil (by simpa using hne), List.map_dropLast]
  · rw [hsteps, hanchor]
    rfl

theorem exists_parent? (h : p.fileName? = some name) : ∃ q, p.parent? = some q := by
  obtain ⟨piece, hlast, _⟩ := fileName?_eq_some_iff.1 h
  rcases hsplit : split p.text.toList with ⟨anchor, pieces⟩
  simp only [parent?, hsplit]
  cases hbusy : pieces.reverse.dropWhile isIdle with
  | cons last before => exact ⟨_, rfl⟩
  | nil =>
    -- Without a step there is no name.
    have hnil : dropIdleEnd pieces = [] := by rw [dropIdleEnd, hbusy, List.reverse_nil]
    rw [steps_eq hsplit, ← filter_dropIdleEnd, hnil] at hlast
    simp at hlast

/-- Another name takes the place of the last step. -/
theorem steps_withFileName {other : String} (h : p.fileName? = some other) (hname : IsName name) :
    (p.withFileName name).steps = p.steps.dropLast ++ [name.toList] ∧
      (p.withFileName name).start = p.start := by
  obtain ⟨q, hq⟩ := exists_parent? h
  obtain ⟨hsteps, hstart⟩ := steps_parent? hq
  rw [withFileName, h, hq]
  dsimp only
  rw [steps_join hname.not_isAbsolute, hname.steps, start_join hname.not_isAbsolute, hsteps, hstart]
  exact ⟨rfl, rfl⟩

theorem components_withFileName {other : String} (h : p.fileName? = some other)
    (hname : IsName name) :
    (p.withFileName name).components = p.components.dropLast ++ [.name name] := by
  obtain ⟨q, hq⟩ := exists_parent? h
  rw [withFileName, h, hq]
  dsimp only
  rw [components_join_name hname, components_parent? hq]

/-- Another name leads to another place in the same directory. -/
theorem exists_location_withFileName (h : p.fileName? = some other) (hname : IsName name) :
    ∃ l : Location, p.location = l.child other ∧ (p.withFileName name).location = l.child name := by
  refine ⟨_, location_of_fileName? h, ?_⟩
  obtain ⟨hsteps, hstart⟩ := steps_withFileName h hname
  rw [location_of_fileName? (fileName?_withFileName hname), hsteps, hstart, List.dropLast_concat]

/-! ## What the components tell -/

theorem step_injective : Function.Injective step := by
  intro a b h
  rw [step, step] at h
  split at h
  · next ha =>
    split at h
    · next hb => rw [ha, hb]
    · simp at h
  · split at h
    · simp at h
    · exact String.ofList_injective (Component.name.inj h)

theorem Anchor.components_injective : Function.Injective Anchor.components := by
  intro a b h
  cases a <;> cases b <;> simp_all [Anchor.components]

/-- No step is a component that an anchor stands for. -/
theorem eq_nil_of_components {a : Anchor} {more : List Component} {steps : List (List Char)}
    (hanchor : more ⊆ a.components) (hsteps : more ⊆ steps.map step) : more = [] := by
  rw [List.eq_nil_iff_forall_not_mem]
  intro c hc
  obtain ⟨piece, -, rfl⟩ := List.mem_map.1 (hsteps hc)
  have hmem := hanchor hc
  rw [step] at hmem
  cases a <;> split at hmem <;> simp [Anchor.components] at hmem

/-- Paths of the same components start at the same place and take the same steps. -/
theorem anchor_and_steps_of_components (h : p.components = q.components) :
    p.anchor = q.anchor ∧ p.steps = q.steps := by
  rw [components_eq, components_eq] at h
  suffices hanchor : p.anchor = q.anchor by
    rw [hanchor, List.append_cancel_left_eq] at h
    exact ⟨hanchor, (List.map_inj_right fun _ _ he => step_injective he).1 h⟩
  refine Anchor.components_injective ?_
  rcases List.append_eq_append_iff.1 h with ⟨more, hq, hsteps⟩ | ⟨more, hp, hsteps⟩
  · obtain rfl := eq_nil_of_components (hq ▸ List.subset_append_right _ _)
      (hsteps ▸ List.subset_append_left _ _)
    rw [hq, List.append_nil]
  · obtain rfl := eq_nil_of_components (hp ▸ List.subset_append_right _ _)
      (hsteps ▸ List.subset_append_left _ _)
    rw [hp, List.append_nil]

/-- Where a path leads is told by its components. -/
theorem location_of_components (h : p.components = q.components) : p.location = q.location := by
  obtain ⟨hanchor, hsteps⟩ := anchor_and_steps_of_components h
  rw [location_eq, location_eq, hsteps, start_congr hanchor]
end Path

end PaperGraph
