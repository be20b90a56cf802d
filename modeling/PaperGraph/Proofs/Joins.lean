import PaperGraph.Proofs.Excluding
import PaperGraph.Proofs.Paths

/-!
# Texts of joined paths

What is joined to a path stands after it as it is, with a separator in between. So the text of
a path along some names tells these names, and nothing else is changed when it is cut: its
parent is the path along all names but the last one, and what it adds to the path that it
comes from are the names. For other paths this holds of the components only.

* `Path.along_eq_join`: to go along names is to be joined to the path that they make;
* `Path.parent?_along`, `Path.relativeTo?_along`: such paths are cut where they were joined;
* `Path.components_of_relativeTo?`: a path seen from another one has the components that are
  left of it.
-/

namespace PaperGraph.Path

open Text

variable {p q base : Path} {anchor : Anchor} {pieces : List (List Char)} {name last : String}
  {names front : List String}

/-! ## Joins -/

/-- The text that a path is joined after. -/
def lead (p : Path) : String :=
  if p.text = "" ∨ (stripEnd? ['/'] p.text.toList).isSome then p.text else p.text ++ "/"

theorem join_eq (hq : ¬ q.isAbsolute) : p.join q = ⟨p.lead ++ q.text⟩ := by
  rw [join, lead, Bool.eq_false_iff.2 hq, Bool.false_or]
  by_cases hempty : p.text = ""
  · simp [hempty]
  · by_cases hslash : (stripEnd? ['/'] p.text.toList).isSome
    · simp [hempty, hslash]
    · simp [hempty, hslash]

theorem lead_of_getLast? {c : Char} (h : p.text.toList.getLast? = some c) (hc : c ≠ '/') :
    p.lead = p.text ++ "/" := by
  rw [lead, if_neg]
  rintro (hempty | hslash)
  · simp [hempty] at h
  · obtain ⟨before, hbefore⟩ := stripEnd?_isSome_iff.1 hslash
    rw [hbefore, List.getLast?_concat] at h
    exact hc (Option.some.inj h).symm

theorem IsName.ne_nil (h : IsName name) : name.toList ≠ [] :=
  fun hnil => h.busy (by simp [isIdle, hnil])

theorem lead_join_name (h : IsName name) : (p.join ⟨name⟩).lead = p.lead ++ name ++ "/" := by
  obtain ⟨c, hc⟩ := Option.ne_none_iff_exists'.1 (mt List.getLast?_eq_none_iff.1 h.ne_nil)
  have hlast : (p.join ⟨name⟩).text.toList.getLast? = some c := by
    rw [join_eq h.not_isAbsolute, String.toList_append, List.getLast?_append, hc, Option.some_or]
  rw [lead_of_getLast? hlast fun he => h.whole (he ▸ List.mem_of_getLast? hc),
    join_eq h.not_isAbsolute]

theorem not_isAbsolute_ofNames (h : ∀ name ∈ names, IsName name) :
    ¬ (ofNames names).isAbsolute := by
  cases names with
  | nil => decide
  | cons name names =>
    obtain ⟨hname, -⟩ := List.forall_mem_cons.1 h
    obtain ⟨c, cs, hcs⟩ := List.exists_cons_of_ne_nil hname.ne_nil
    have hhead : (ofNames (name :: names)).text.toList.head? = some c := by
      rw [toList_ofNames]
      cases names with
      | nil => simp [hcs]
      | cons next names => simp [hcs, List.intercalate_cons_cons]
    rw [isAbsolute, hhead, decide_eq_true_iff]
    exact fun he => hname.whole (by rw [hcs, Option.some.inj he]; exact List.mem_cons_self)

/-- To go along some names is to be joined to the path that they make. -/
theorem along_eq_join (hne : names ≠ []) (h : ∀ name ∈ names, IsName name) :
    p.along names = p.join (ofNames names) := by
  induction names generalizing p with
  | nil => exact absurd rfl hne
  | cons name names ih =>
    obtain ⟨hname, hnames⟩ := List.forall_mem_cons.1 h
    rw [along, List.foldl_cons, ← along]
    cases names with
    | nil => rfl
    | cons next names =>
      rw [ih (List.cons_ne_nil _ _) hnames, join_eq (not_isAbsolute_ofNames hnames),
        lead_join_name hname, join_eq (not_isAbsolute_ofNames h), ofNames, ofNames,
        String.intercalate_cons_cons]
      simp only [String.append_assoc]

theorem text_along (hne : names ≠ []) (h : ∀ name ∈ names, IsName name) :
    (p.along names).text = p.lead ++ (ofNames names).text := by
  rw [along_eq_join hne h, join_eq (not_isAbsolute_ofNames h)]

/-! ## The current directory -/

theorem lead_join_current (p : Path) : (p.join ⟨"."⟩).lead = (p.join ⟨"."⟩).text ++ "/" := by
  have hlast : (p.join ⟨"."⟩).text.toList.getLast? = some '.' := by
    rw [join_eq (by decide), String.toList_append, List.getLast?_append]
    rfl
  exact lead_of_getLast? hlast (by decide)

theorem steps_join_current (p : Path) : (p.join ⟨"."⟩).steps = p.steps := by
  rw [steps_join (by decide)]
  exact List.append_nil _

theorem components_join_current (h : p.text ≠ "") : (p.join ⟨"."⟩).components = p.components := by
  rw [components_eq, components_eq, anchor_join_of_ne h (by decide), steps_join_current]

theorem join_empty (h : p.text = "") (q : Path) : p.join q = q := by
  rw [join, h, if_pos (by simp)]

theorem components_eq_nil (h : p.text = "") : p.components = [] := by
  rw [components, h]
  rfl

theorem location_join_current (p : Path) : (p.join ⟨"."⟩).location = p.location := by
  rw [location_eq, location_eq, steps_join_current, start_join (by decide)]

theorem prefix_join_current (p : Path) : p.components <+: (p.join ⟨"."⟩).components := by
  by_cases h : p.text = ""
  · rw [components_eq_nil h]
    exact List.nil_prefix
  · rw [components_join_current h]

/-! ## Cuts -/

theorem ofPieces_split (h : split p.text.toList = (anchor, pieces)) :
    ofPieces anchor pieces = p := by
  obtain ⟨text⟩ := p
  simp only [ofPieces, mk.injEq, ← String.toList_inj, String.toList_ofList]
  rw [split.eq_def] at h
  split at h
  · next htext =>
    obtain ⟨rfl, rfl⟩ := Prod.mk.inj h
    rw [htext]
    rfl
  · next htext =>
    obtain ⟨rfl, rfl⟩ := Prod.mk.inj h
    rw [htext]
    exact congrArg _ (intercalate_splitAt '/' _)
  · next htext =>
    obtain ⟨rfl, rfl⟩ := Prod.mk.inj h
    rw [htext]
    rfl
  · next htext =>
    obtain ⟨rfl, rfl⟩ := Prod.mk.inj h
    rw [htext]
    simp only [if_neg (splitAt_ne_nil '/' _), intercalate_splitAt]
  · obtain ⟨rfl, rfl⟩ := Prod.mk.inj h
    exact intercalate_splitAt '/' _

theorem components_ne_nil (h : p.text ≠ "") : p.components ≠ [] := by
  rcases hsplit : split p.text.toList with ⟨start, pieces⟩
  have hanchor : p.anchor = start := congrArg Prod.fst hsplit
  rw [components_eq, steps_eq hsplit, hanchor]
  cases start with
  | root => simp [Anchor.components]
  | current => simp [Anchor.components]
  | bare =>
    cases pieces with
    | nil => exact absurd (congrArg text (ofPieces_split hsplit)).symm h
    | cons first rest =>
      have hidle := (isCut_split hsplit).first rfl first rfl
      rw [List.filter_cons_of_pos (by simpa using hidle)]
      simp [Anchor.components]

/-- What follows a separator is cut on its own. -/
theorem split_append {text : List Char} (hne : text ≠ []) (rest : List Char) :
    split (text ++ '/' :: rest) = ((split text).1, (split text).2 ++ splitAt '/' rest) := by
  refine Prod.ext (split_append_fst hne rest) ?_
  rw [split.eq_def text]
  split
  · exact absurd rfl hne
  · next text =>
    rw [List.cons_append, split, splitAt_append]
  · rfl
  · next text =>
    rw [List.cons_append, List.cons_append, split, splitAt_append]
  · next hnil hroot hdot hcurrent =>
    obtain ⟨c, text, rfl⟩ := List.exists_cons_of_ne_nil hne
    rw [split.eq_def]
    -- A longer text does not start in another way.
    split
    · next htext => simp at htext
    · next more htext => exact absurd (by rw [(List.cons.inj htext).1]) (hroot text)
    · next htext => simp at htext
    · next more htext =>
      obtain ⟨rfl, hrest⟩ := List.cons.inj htext
      cases text with
      | nil => exact absurd rfl hdot
      | cons d text => exact absurd (by rw [(List.cons.inj hrest).1]) (hcurrent text)
    · exact splitAt_append ..

theorem dropIdleEnd_of_getLast? (h : ∀ piece ∈ pieces.getLast?, ¬ isIdle piece) :
    dropIdleEnd pieces = pieces := by
  rw [← List.head?_reverse] at h
  rw [dropIdleEnd]
  cases hreverse : pieces.reverse with
  | nil => exact (List.reverse_eq_nil_iff.1 hreverse).symm
  | cons last before =>
    have hlast : ¬ isIdle last := h last (by rw [hreverse, List.head?_cons]; rfl)
    rw [List.dropWhile_cons_of_neg hlast, ← hreverse, List.reverse_reverse]

theorem not_isIdle_of_mem_map (h : ∀ name ∈ names, IsName name) :
    ∀ piece ∈ names.map String.toList, ¬ isIdle piece := by
  intro piece hpiece
  obtain ⟨name, hname, rfl⟩ := List.mem_map.1 hpiece
  exact (h name hname).busy

theorem dropIdleEnd_map (h : ∀ name ∈ names, IsName name) :
    dropIdleEnd (names.map String.toList) = names.map String.toList :=
  dropIdleEnd_of_getLast? fun piece hpiece =>
    not_isIdle_of_mem_map h piece (List.mem_of_getLast? hpiece)

/-- A path along names is cut into what it comes from and the names. -/
theorem split_along (hp : p.lead = p.text ++ "/") (hne : names ≠ [])
    (h : ∀ name ∈ names, IsName name) : split (p.along names).text.toList =
      (p.anchor, (split p.text.toList).2 ++ names.map String.toList) := by
  have hempty : p.text.toList ≠ [] := by
    intro hnil
    have hlead : p.lead = p.text := if_pos (.inl (String.toList_eq_nil_iff.1 hnil))
    have hlength := congrArg String.length (hlead.symm.trans hp)
    simp at hlength
  have hwhole : ∀ piece ∈ names.map String.toList, '/' ∉ piece := by
    intro piece hpiece
    obtain ⟨name, hname, rfl⟩ := List.mem_map.1 hpiece
    exact (h name hname).whole
  have hslash : "/".toList = ['/'] := rfl
  rw [text_along hne h, hp, String.toList_append, String.toList_append, List.append_assoc, hslash,
    List.singleton_append, split_append hempty, toList_ofNames,
    splitAt_intercalate (by simpa using hne) hwhole, anchor]

/-- The parent of a path along names is the path along all of them but the last one. -/
theorem parent?_along (hp : p.lead = p.text ++ "/")
    (hfront : front ≠ [] ∨ (split p.text.toList).2 = [])
    (h : ∀ name ∈ front ++ [last], IsName name) :
    (p.along (front ++ [last])).parent? = some (p.along front) := by
  obtain ⟨hnames, hlast⟩ := List.forall_mem_append.1 h
  have hbusy : ¬ isIdle last.toList := (hlast last List.mem_cons_self).busy
  have hcut : split (p.along front).text.toList =
      (p.anchor, (split p.text.toList).2 ++ front.map String.toList) := by
    by_cases hnil : front = []
    · have hpieces := hfront.resolve_left (not_not.2 hnil)
      rw [hnil, hpieces]
      exact Prod.ext rfl hpieces
    · exact split_along hp hnil hnames
  have hend : dropIdleEnd ((split p.text.toList).2 ++ front.map String.toList) =
      (split p.text.toList).2 ++ front.map String.toList := by
    refine dropIdleEnd_of_getLast? fun piece hpiece => not_isIdle_of_mem_map hnames piece ?_
    -- The last piece is that of the last name, if there is one.
    by_cases hnil : front = []
    · rw [hnil, hfront.resolve_left (not_not.2 hnil)] at hpiece
      exact absurd hpiece (by simp)
    · rw [List.getLast?_append_of_ne_nil _ (by simpa using hnil)] at hpiece
      exact List.mem_of_getLast? hpiece
  rw [parent?, split_along hp (by simp) h]
  simp only [List.map_append, List.map_cons, List.map_nil, ← List.append_assoc,
    List.reverse_concat, List.dropWhile_cons_of_neg hbusy]
  rw [dropIdleEnd] at hend
  rw [hend, ofPieces_split hcut]

/-! ## Paths seen from others -/

namespace relativeTo?

theorem afterSteps_suffix (n : Nat) (pieces : List (List Char)) :
    afterSteps n pieces <:+ pieces := by
  fun_induction afterSteps n pieces with
  | case1 => exact List.suffix_rfl
  | case2 n piece pieces hidle ih => exact ih.trans (List.suffix_cons _ _)
  | case3 piece pieces hidle => exact List.suffix_rfl
  | case4 piece pieces hidle n ih => exact ih.trans (List.suffix_cons _ _)

theorem filter_afterSteps (n : Nat) (pieces : List (List Char)) :
    (afterSteps n pieces).filter (! isIdle ·) = (pieces.filter (! isIdle ·)).drop n := by
  fun_induction afterSteps n pieces with
  | case1 => simp
  | case2 n piece pieces hidle ih => rw [List.filter_cons_of_neg (by simpa using hidle), ih]
  | case3 piece pieces hidle => rfl
  | case4 piece pieces hidle n ih =>
    rw [List.filter_cons_of_pos (by simpa using hidle), List.drop_succ_cons, ih]

theorem head?_afterSteps (n : Nat) (pieces : List (List Char)) :
    ∀ piece ∈ (afterSteps n pieces).head?, ¬ isIdle piece := by
  fun_induction afterSteps n pieces with
  | case1 => simp
  | case2 n piece pieces hidle ih => exact ih
  | case3 piece pieces hidle =>
    rintro _ ⟨⟩
    exact hidle
  | case4 piece pieces hidle n ih => exact ih

theorem afterSteps_cons_of_idle {piece : List Char} (h : isIdle piece) (n : Nat) :
    afterSteps n (piece :: pieces) = afterSteps n pieces := by
  cases n with
  | zero => rw [afterSteps, if_pos h]
  | succ n => rw [afterSteps, if_pos h]

/-- Steps are counted until those of the names come. -/
theorem afterSteps_append (h : ∀ name ∈ names, IsName name) (pieces : List (List Char)) :
    afterSteps (pieces.filter (! isIdle ·)).length (pieces ++ names.map String.toList) =
      names.map String.toList := by
  induction pieces with
  | nil =>
    cases names with
    | nil => rfl
    | cons name names => simp [afterSteps, (h name List.mem_cons_self).busy]
  | cons piece pieces ih =>
    by_cases hidle : isIdle piece
    · rw [List.filter_cons_of_neg (by simpa using hidle), List.cons_append,
        afterSteps_cons_of_idle hidle, ih]
    · rw [List.filter_cons_of_pos (by simpa using hidle), List.cons_append, List.length_cons,
        afterSteps, if_neg hidle, ih]

theorem components_rest (n : Nat) (h : ∀ piece ∈ pieces, '/' ∉ piece) :
    (rest n pieces).components = ((pieces.filter (! isIdle ·)).drop n).map step := by
  have hstarts : dropIdleEnd (afterSteps n pieces) <+: afterSteps n pieces := prefix_dropIdleEnd _
  have hwhole : ∀ piece ∈ dropIdleEnd (afterSteps n pieces), '/' ∉ piece := fun piece hpiece =>
    h piece ((afterSteps_suffix n pieces).subset (hstarts.subset hpiece))
  have hfirst : ∀ piece ∈ (dropIdleEnd (afterSteps n pieces)).head?, ¬ isIdle piece :=
    fun piece hpiece => head?_afterSteps n pieces piece (mem_head?_of_starts hstarts hpiece)
  rw [components_eq, rest, anchor_ofPieces hwhole fun _ => hfirst, steps_ofPieces hwhole,
    filter_dropIdleEnd, filter_afterSteps]
  rfl

end relativeTo?

theorem exists_relativeTo? (h : base.components <+: p.components) :
    ∃ q, p.relativeTo? base = some q := by
  rw [relativeTo?, if_pos (List.isPrefixOf_iff_prefix.2 h)]
  rcases split p.text.toList with ⟨anchor, pieces⟩
  cases base.components.length with
  | zero => exact ⟨_, rfl⟩
  | succ n => cases anchor <;> exact ⟨_, rfl⟩

/-- A path seen from another one has the components that are left of it. -/
theorem components_of_relativeTo? (h : p.relativeTo? base = some q) :
    p.components = base.components ++ q.components := by
  rcases hsplit : split p.text.toList with ⟨start, pieces⟩
  have hcut := isCut_split hsplit
  have hcomponents : p.components = start.components ++ (pieces.filter (! isIdle ·)).map step := by
    rw [components_eq, Path.anchor, hsplit, steps_eq hsplit]
  rw [relativeTo?] at h
  split at h
  · next hprefix =>
    obtain ⟨left, hleft⟩ := List.isPrefixOf_iff_prefix.1 hprefix
    have hdrop : left = p.components.drop base.components.length := by
      rw [← hleft, List.drop_left]
    rw [← hleft, List.append_cancel_left_eq, hdrop, hcomponents]
    simp only [hsplit] at h
    split at h
    · next start _ _ hlength =>
      obtain rfl := Option.some.inj h
      have hstarts := prefix_dropIdleEnd pieces
      have hwhole : ∀ piece ∈ dropIdleEnd pieces, '/' ∉ piece := fun piece hpiece =>
        hcut.whole piece (hstarts.subset hpiece)
      have hfirst (hbare : start = .bare) :
          ∀ piece ∈ (dropIdleEnd pieces).head?, ¬ isIdle piece := fun piece hpiece =>
        hcut.first hbare piece (mem_head?_of_starts hstarts hpiece)
      rw [hlength, components_eq, anchor_ofPieces hwhole hfirst, steps_ofPieces hwhole,
        filter_dropIdleEnd]
      rfl
    · next n hlength =>
      obtain rfl := Option.some.inj h
      rw [hlength, relativeTo?.components_rest _ hcut.whole, List.map_drop]
      rfl
    · next start _ _ n hlength hbare =>
      obtain rfl := Option.some.inj h
      rw [hlength, relativeTo?.components_rest _ hcut.whole, List.map_drop]
      cases start with
      | root => rfl
      | current => rfl
      | bare => exact absurd rfl hbare
  · simp at h

/-- Seen from the empty path a path is what it was, if it does not end idly. -/
theorem relativeTo?_empty (h : dropIdleEnd (split p.text.toList).2 = (split p.text.toList).2) :
    p.relativeTo? ⟨""⟩ = some p := by
  rcases hsplit : split p.text.toList with ⟨start, pieces⟩
  rw [hsplit] at h
  have hnil : components ⟨""⟩ = [] := rfl
  rw [relativeTo?, hnil, if_pos (by simp), hsplit]
  simp only [List.length_nil]
  rw [h, ofPieces_split hsplit]

/-- A path along names that is seen from where it comes from tells the names. -/
theorem relativeTo?_along (hp : p.lead = p.text ++ "/") (hbase : base.components = p.components)
    (hstart : p.components ≠ []) (hne : names ≠ []) (h : ∀ name ∈ names, IsName name) :
    (p.along names).relativeTo? base = some (ofNames names) := by
  rcases hsplit : split p.text.toList with ⟨start, pieces⟩
  have hanchor : p.anchor = start := congrArg Prod.fst hsplit
  have hprefix : base.components.isPrefixOf (p.along names).components := by
    rw [List.isPrefixOf_iff_prefix, hbase, components_along h]
    exact List.prefix_append _ _
  have hrest : relativeTo?.rest (pieces.filter (! isIdle ·)).length
      (pieces ++ names.map String.toList) = ofNames names := by
    rw [relativeTo?.rest, relativeTo?.afterSteps_append h, dropIdleEnd_map h, ofPieces,
      ← toList_ofNames, String.ofList_toList]
  rw [relativeTo?, if_pos hprefix, split_along hp hne h, hbase]
  rw [components_eq, hanchor, steps_eq hsplit] at hstart ⊢
  simp only [hsplit]
  -- The anchor counts as a component, unless there is none.
  cases start with
  | root => simpa [Anchor.components] using hrest
  | current => simpa [Anchor.components] using hrest
  | bare =>
    cases hsteps : pieces.filter (! isIdle ·) with
    | nil => exact absurd (by rw [hsteps]; rfl) hstart
    | cons first more =>
      rw [hsteps] at hrest
      simpa [Anchor.components] using hrest

end PaperGraph.Path
