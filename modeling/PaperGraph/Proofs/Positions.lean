import PaperGraph.Proofs.GroupForms
import PaperGraph.Proofs.Handling
import PaperGraph.Run.Passes

/-!
# Positions that are counted are there

Whatever is cut out of a line is cut at positions that have been counted along it:
at the end of what was passed over, of a group, or of a property. So nothing is cut
where no character starts, and no end comes before its start. A group opens behind
its brace, so there is a byte before its start. A property takes up its command at
least, so each pass over a line starts behind the one before it, and there is a last
one.

* `slice_append`: the slices of a text are its parts;
* `Groups.scanned_eq`: scanning a text tells of it what splitting it tells;
* `Invocation.readAt_append`: reading an invocation at a place of its line is reading
  it where the line is split;
* `Property.Pass.turn_of_occurrence`: what a pass comes to;
* `Property.ends_rewrite`: the loop over a line ends, with what the line is rewritten
  to;
* `Property.passes_of_line`: no position in a line goes wrong, and each pass puts the
  cursor forward.
-/

namespace PaperGraph

open Text

/-! ## Slices -/

namespace Text

variable {text : List Char}

@[simp]
theorem splitAtByte?_append (before after : List Char) :
    splitAtByte? (utf8Size before) (before ++ after) = some (before, after) := by
  induction before with
  | nil => rw [utf8Size_nil, splitAtByte?, List.nil_append]
  | cons c before ih =>
    -- A character has a byte at least.
    obtain ⟨n, hn⟩ := Nat.exists_eq_add_one_of_ne_zero
      (Nat.ne_of_gt (Nat.add_pos_left c.utf8Size_pos (utf8Size before)))
    rw [utf8Size_cons, hn, List.cons_append, splitAtByte?, if_pos (by omega),
      show n + 1 - c.utf8Size = utf8Size before by omega, ih]
    rfl

theorem utf8Size_pos (h : text ≠ []) : 0 < utf8Size text := by
  obtain ⟨c, cs, rfl⟩ := List.exists_cons_of_ne_nil h
  exact Nat.add_pos_left c.utf8Size_pos _

@[simp]
theorem sliceFrom_append (before part : List Char) :
    sliceFrom (utf8Size before) (before ++ part) = .ok part := by
  rw [sliceFrom, splitAtByte?_append]

theorem slice_append (before part after : List Char) :
    slice (utf8Size before) (utf8Size (before ++ part)) (before ++ part ++ after) = .ok part := by
  rw [slice, if_pos (by simp), splitAtByte?_append]
  exact sliceFrom_append before part

end Text

/-! ## Groups -/

namespace Groups

variable {source inner tail leading cs : List Char} {groups : List (List Char)}
  {depth start index : Nat}

theorem scan_open : scan source depth start groups index ('\x7b' :: cs) =
    scan source (depth + 1) (if depth = 0 then index + 1 else start) groups (index + 1) cs := by
  rw [scan, if_pos rfl]
  rfl

theorem scan_close_succ : scan source (depth + 2) start groups index ('\x7d' :: cs) =
    scan source (depth + 1) start groups (index + 1) cs := by
  rw [scan, if_neg (by decide), if_pos ⟨rfl, Nat.succ_pos _⟩, if_neg (by omega)]
  rfl

/-- Where no group is open a closing brace is a character as any other. -/
theorem scan_cons_of_ne {c : Char} (hopen : c ≠ '\x7b') (hclose : c = '\x7d' → depth = 0) :
    scan source depth start groups index (c :: cs) =
      scan source depth start groups (index + c.utf8Size) cs := by
  rw [scan, if_neg hopen, if_neg fun h => Nat.ne_of_gt h.2 (hclose h.1)]

theorem scan_leading (h : '\x7b' ∉ leading) :
    scan source 0 start groups index (leading ++ cs) =
      scan source 0 start groups (index + utf8Size leading) cs := by
  induction leading generalizing index with
  | nil => rfl
  | cons c leading ih =>
    rw [List.mem_cons, not_or] at h
    rw [List.cons_append, scan_cons_of_ne (Ne.symm h.1) fun _ => rfl, ih h.2, utf8Size_cons,
      Nat.add_assoc]

/-- Within a group a balanced text is passed over. -/
theorem scan_balanced (h : Balanced inner) :
    scan source (depth + 1) start groups index (inner ++ cs) =
      scan source (depth + 1) start groups (index + utf8Size inner) cs := by
  induction h generalizing depth index cs with
  | nil => rfl
  | char hopen hclose _ ih =>
    rw [List.cons_append, scan_cons_of_ne hopen (absurd · hclose), ih, utf8Size_cons, Nat.add_assoc]
  | @group inner rest _ _ hinner ih =>
    rw [List.cons_append, List.cons_append, scan_open, if_neg (Nat.succ_ne_zero depth),
      List.append_assoc, hinner, List.cons_append, scan_close_succ, ih]
    congr 1
    simp only [utf8Size_append, utf8Size_cons]
    rw [show Char.utf8Size '\x7b' = 1 from rfl, show Char.utf8Size '\x7d' = 1 from rfl]
    omega

/-- A group that is not closed is told by the byte before its start. -/
theorem scan_staysOpen (h : StaysOpen depth tail) :
    scan source (depth + 1) start groups index tail =
      (predecessor start).map fun offset => .error offset := by
  induction tail generalizing depth index with
  | nil =>
    rw [scan, if_pos (Nat.succ_pos depth)]
    rfl
  | cons c tail ih =>
    by_cases hopen : c = '\x7b'
    · subst hopen
      rw [scan_open, if_neg (Nat.succ_ne_zero depth)]
      exact ih (staysOpen_open.1 h)
    by_cases hclose : c = '\x7d'
    · subst hclose
      cases depth with
      | zero => exact absurd h not_staysOpen_close
      | succ depth =>
        rw [scan_close_succ]
        exact ih (staysOpen_close.1 h)
    · rw [scan_cons_of_ne hopen (absurd · hclose)]
      exact ih ((staysOpen_cons_of_ne hopen hclose).1 h)

/-- What is done at the end of a group. -/
theorem scan_close (before inner cs : List Char) :
    scan (before ++ inner ++ '\x7d' :: cs) 1 (utf8Size before) groups (utf8Size (before ++ inner))
        ('\x7d' :: cs) =
      if cs.head? = some '\x7b' then
        scan (before ++ inner ++ '\x7d' :: cs) 0 (utf8Size before) (groups ++ [inner])
          (utf8Size (before ++ inner) + 1) cs
      else .ok (.ok (groups ++ [inner], utf8Size (before ++ inner) + 1)) := by
  rw [scan, if_neg (by decide), if_pos ⟨rfl, Nat.one_pos⟩, if_pos rfl, slice_append]
  rfl

/-- A group is passed over as a whole, and the scan ends unless a group follows. -/
theorem scan_braced (hinner : Balanced inner) (before cs : List Char) (start : Nat) :
    scan (before ++ braced inner ++ cs) 0 start groups (utf8Size before) (braced inner ++ cs) =
      if cs.head? = some '\x7b' then
        scan (before ++ braced inner ++ cs) 0 (utf8Size before + 1) (groups ++ [inner])
          (utf8Size (before ++ braced inner)) cs
      else .ok (.ok (groups ++ [inner], utf8Size (before ++ braced inner))) := by
  have hstart : utf8Size (before ++ ['\x7b']) = utf8Size before + 1 := by
    rw [utf8Size_append]
    rfl
  have hstop : utf8Size (before ++ ['\x7b'] ++ inner) + 1 = utf8Size (before ++ braced inner) := by
    simp only [braced, utf8Size_append, utf8Size_cons, utf8Size_nil]
    rw [show Char.utf8Size '\x7d' = 1 from rfl]
    omega
  have hsource : before ++ braced inner ++ cs = before ++ ['\x7b'] ++ inner ++ '\x7d' :: cs := by
    simp [braced]
  have hclose := @scan_close groups (before ++ ['\x7b']) inner cs
  rw [← hsource, hstop, hstart] at hclose
  rw [braced_append, scan_open, if_pos rfl, scan_balanced hinner, ← hstart, ← utf8Size_append,
    hstart]
  exact hclose

/-- Groups are passed over if something in braces follows them, or the start of it. -/
theorem scan_groups (hgroups : ∀ g ∈ groups, Balanced g) (hcs : cs.head? = some '\x7b')
    (before : List Char) (earlier : List (List Char)) (start : Nat) : ∃ start',
      scan (before ++ groups.flatMap braced ++ cs) 0 start earlier (utf8Size before)
          (groups.flatMap braced ++ cs) =
        scan (before ++ groups.flatMap braced ++ cs) 0 start' (earlier ++ groups)
          (utf8Size (before ++ groups.flatMap braced)) cs := by
  induction groups generalizing before earlier start with
  | nil => exact ⟨start, by simp⟩
  | cons g groups ih =>
    obtain ⟨hg, hgroups⟩ := List.forall_mem_cons.1 hgroups
    obtain ⟨start', hrest⟩ := ih hgroups (before ++ braced g) (earlier ++ [g]) (utf8Size before + 1)
    refine ⟨start', ?_⟩
    have hnext : (groups.flatMap braced ++ cs).head? = some '\x7b' := by
      cases groups with
      | nil => exact hcs
      | cons _ _ => rw [List.flatMap_cons, List.append_assoc, head?_braced]
    have hfirst := @scan_braced g earlier hg before (groups.flatMap braced ++ cs) start
    rw [if_pos hnext] at hfirst
    simp only [List.flatMap_cons, List.append_assoc, List.singleton_append] at hfirst hrest ⊢
    rw [hfirst, hrest]

theorem scanned_plain (h : '\x7b' ∉ source) : scanned source = .ok (.ok ([], utf8Size source)) := by
  have hscan := @scan_leading source source [] [] 0 0 h
  rw [List.append_nil] at hscan
  rw [scanned, hscan, scan, if_neg (Nat.lt_irrefl 0)]
  rfl

theorem scanned_closed {rest : List Char} (hleading : '\x7b' ∉ leading) (hne : groups ≠ [])
    (hgroups : ∀ g ∈ groups, Balanced g) (hrest : rest.head? ≠ some '\x7b') :
    scanned (leading ++ groups.flatMap braced ++ rest) =
      .ok (.ok (groups, utf8Size (leading ++ groups.flatMap braced))) := by
  -- The scan passes over all groups but the last one, and ends with that.
  obtain ⟨front, last, rfl⟩ := (List.eq_nil_or_concat groups).resolve_left hne
  rw [List.concat_eq_append] at hgroups ⊢
  obtain ⟨start, hfront⟩ := scan_groups (fun g hg => hgroups g (List.mem_append_left _ hg))
    (@head?_braced last rest) leading [] 0
  have hlast := @scan_braced last front (hgroups last (by simp))
    (leading ++ front.flatMap braced) rest start
  rw [if_neg hrest] at hlast
  rw [scanned, List.append_assoc, scan_leading hleading, Nat.zero_add]
  simp only [List.flatMap_append, List.flatMap_singleton, List.append_assoc, List.nil_append]
    at hfront hlast ⊢
  rw [hfront, hlast]

theorem scanned_unclosed (hleading : '\x7b' ∉ leading) (hgroups : ∀ g ∈ groups, Balanced g)
    (htail : StaysOpen 0 tail) : scanned (leading ++ groups.flatMap braced ++ '\x7b' :: tail) =
      .ok (.error (utf8Size (leading ++ groups.flatMap braced))) := by
  obtain ⟨start, hscan⟩ := @scan_groups ('\x7b' :: tail) groups hgroups rfl leading [] 0
  rw [scanned, List.append_assoc, scan_leading hleading, Nat.zero_add, ← List.append_assoc, hscan,
    scan_open, if_pos rfl, scan_staysOpen htail]
  rfl

/-- Scanning a text goes wrong nowhere, and tells of it what splitting it tells. -/
theorem scanned_eq (source : List Char) : scanned source = .ok (outcome source) := by
  obtain ⟨form, hform, rfl⟩ := Form.exists_form source
  rw [Form.outcome_text hform]
  cases form with
  | plain text => exact scanned_plain hform
  | closed leading groups rest =>
    obtain ⟨hleading, hne, hgroups, hrest⟩ := hform
    exact scanned_closed hleading hne hgroups hrest
  | unclosed leading groups tail =>
    obtain ⟨hleading, hgroups, htail⟩ := hform
    exact scanned_unclosed hleading hgroups htail

end Groups

/-- An invocation that is read at a place of its line is the one that is read where the
    line is split. -/
theorem Invocation.readAt_append (d : Directive) (forms : Dictionary) (number : Nat)
    (before found : List Char) :
    readAt d forms number (before ++ found) (utf8Size before) =
      .ok (read d forms number (utf8Size before) found) := by
  simp only [readAt, sliceFrom_append, Groups.scanned_eq, Groups.outcome, read, ofSplit,
    bind, Except.bind, pure, Except.pure]
  cases Groups.split found with
  | ok s => rfl
  | error u => rfl

/-- An invocation takes up something of its text. -/
theorem Invocation.endOffset_of_read {d : Directive} {forms : Dictionary} {number offset : Nat}
    {text : List Char} {i : Invocation} (h : read d forms number offset text = .ok i)
    (hne : text ≠ []) :
    ∃ taken rest, text = taken ++ rest ∧ taken ≠ [] ∧ i.endOffset = offset + utf8Size taken := by
  rw [read] at h
  split at h
  · next s hsplit =>
    obtain rfl := Except.ok.inj h
    have hsource := Groups.source_split hsplit
    refine ⟨s.consumed, s.rest, hsource.symm, fun hnil => ?_, rfl⟩
    have hlt := Groups.length_rest_lt hsplit hne
    rw [← hsource, Groups.Split.source, hnil, List.nil_append] at hlt
    exact Nat.lt_irrefl _ hlt
  · simp at h

/-! ## Passes -/

namespace Property

variable {forms : Dictionary} {place : Place} {line before rest between found : List Char}
  {pass next : Pass}

namespace Pass

/-- The cursor stands where a character starts, or at the end. -/
def Within (line : List Char) (pass : Pass) : Prop :=
  ∃ before rest, line = before ++ rest ∧ pass.cursor = utf8Size before

theorem turn_of_none (hcursor : pass.cursor = utf8Size before)
    (hrest : Directive.property.occurrence? rest = none) :
    pass.turn forms place (before ++ rest) =
      .ok (.finished (pass.output ++ rest) pass.properties) := by
  simp only [turn, hcursor, sliceFrom_append, bind, Except.bind, Directive.offset?, hrest,
    Option.map_none]
  rfl

theorem turn_of_occurrence (hcursor : pass.cursor = utf8Size before)
    (hrest : Directive.property.occurrence? rest = some (between, found)) :
    pass.turn forms place (before ++ rest) =
      .ok (match Invocation.read .property forms place.line (utf8Size (before ++ between))
          found with
        | .error u => .refused (Invocation.unclosedError .property u place)
        | .ok i =>
          match ofInvocation i place with
          | .error complaint => .refused complaint
          | .ok p => .goesOn
            { cursor := i.endOffset
              output := pass.output ++ between ++ p.object.toList
              properties := pass.properties ++ [p] }) := by
  obtain rfl := Directive.append_of_occurrence? hrest
  have hread := Invocation.readAt_append .property forms place.line (before ++ between) found
  have hslice := slice_append before between found
  have hfrom := sliceFrom_append before (between ++ found)
  rw [← List.append_assoc] at hfrom ⊢
  simp only [turn, hcursor, hfrom, Directive.offset?, hrest, Option.map_some, bind, Except.bind,
    ← utf8Size_append, hread, hslice]
  cases Invocation.read .property forms place.line (utf8Size (before ++ between)) found with
  | error u => rfl
  | ok i =>
    simp only
    cases ofInvocation i place with
    | error complaint => rfl
    | ok p => rfl

/-- A pass that starts where the cursor may stand goes wrong nowhere. If the loop goes on
    the cursor may stand where the next pass starts, which is farther on. -/
theorem Within.turn (h : pass.Within line) (forms : Dictionary) (place : Place) :
    ∃ turn, pass.turn forms place line = .ok turn ∧
      ∀ next, turn = .goesOn next → next.Within line ∧ pass.cursor < next.cursor := by
  obtain ⟨before, rest, rfl, hcursor⟩ := h
  cases hrest : Directive.property.occurrence? rest with
  | none =>
    refine ⟨_, turn_of_none hcursor hrest, ?_⟩
    rintro next ⟨⟩
  | some split =>
    obtain ⟨between, found⟩ := split
    refine ⟨_, turn_of_occurrence hcursor hrest, fun next hnext => ?_⟩
    split at hnext
    · cases hnext
    · next i hread =>
      split at hnext
      · cases hnext
      · obtain rfl := Turn.goesOn.inj hnext
        obtain ⟨taken, rest', rfl, htaken, hend⟩ :=
          Invocation.endOffset_of_read hread (length_of_occurrence? hrest).2
        refine ⟨⟨before ++ between ++ taken, rest', ?_, ?_⟩, ?_⟩
        · rw [Directive.append_of_occurrence? hrest]
          simp only [List.append_assoc]
        · rw [hend, utf8Size_append _ taken]
        · have hpos := utf8Size_pos htaken
          simp only [hend, hcursor, utf8Size_append]
          omega

end Pass

/-- The passes that the loop over a line comes to. -/
inductive Reached (forms : Dictionary) (place : Place) (line : List Char) : Pass → Prop where
  /-- The first one starts where the line starts. -/
  | first : Reached forms place line {}
  /-- One is followed by that which it goes on with. -/
  | next {pass next : Pass} : Reached forms place line pass →
      pass.turn forms place line = .ok (.goesOn next) → Reached forms place line next

/-- The loop ends from a pass on, with the text and the properties of the line or
    with what is wrong with one of them. -/
inductive Ends (forms : Dictionary) (place : Place) (line : List Char) :
    Pass → Except Diagnostic (List Char × List Property) → Prop where
  /-- There are no more properties. -/
  | finished {pass : Pass} {text : List Char} {properties : List Property} :
      pass.turn forms place line = .ok (.finished text properties) →
      Ends forms place line pass (.ok (text, properties))
  /-- A property cannot be taken. -/
  | refused {pass : Pass} {complaint : Diagnostic} :
      pass.turn forms place line = .ok (.refused complaint) →
      Ends forms place line pass (.error complaint)
  /-- The loop goes on and ends. -/
  | goesOn {pass next : Pass} {outcome : Except Diagnostic (List Char × List Property)} :
      pass.turn forms place line = .ok (.goesOn next) → Ends forms place line next outcome →
      Ends forms place line pass outcome

theorem Reached.within (h : Reached forms place line pass) : pass.Within line := by
  induction h with
  | first => exact ⟨[], line, rfl, rfl⟩
  | next _ hturn ih =>
    obtain ⟨turn, hturn', hnext⟩ := ih.turn forms place
    exact (hnext _ (Except.ok.inj (hturn'.symm.trans hturn))).1

/-- A pass that takes a property is followed by one that starts behind its groups. -/
theorem Ends.of_property {split : Groups.Split} {p : Property}
    {outcome : Except Diagnostic (List Char × List Property)}
    (hcursor : pass.cursor = utf8Size before)
    (hrest : Directive.property.occurrence? rest = some (between, found))
    (hsplit : Groups.split found = .ok split)
    (hp : ofInvocation
      (.ofSplit .property forms place.line (utf8Size (before ++ between)) split) place = .ok p)
    (h : Ends forms place (before ++ between ++ split.consumed ++ split.rest)
      { cursor := utf8Size (before ++ between ++ split.consumed)
        output := pass.output ++ between ++ p.object.toList
        properties := pass.properties ++ [p] } outcome) :
    Ends forms place (before ++ rest) pass outcome := by
  have hturn : pass.turn forms place (before ++ rest) = _ :=
    Pass.turn_of_occurrence hcursor hrest
  simp only [Invocation.read, hsplit, hp] at hturn
  have hline : before ++ between ++ split.consumed ++ split.rest = before ++ rest := by
    rw [Directive.append_of_occurrence? hrest, ← Groups.source_split hsplit, Groups.Split.source]
    simp only [List.append_assoc]
  rw [hline, utf8Size_append _ split.consumed] at h
  exact .goesOn hturn h

/-- From any pass on the loop ends, and what it ends with is what the rest of the line is
    rewritten to, after what there is already. -/
theorem ends_rewrite {offset : Nat} (before rest output : List Char)
    (properties : List Property) (hoffset : offset = utf8Size before) :
    Ends forms place (before ++ rest) { cursor := utf8Size before, output, properties }
      ((rewrite forms place offset rest).map fun (text, ps) =>
        (output ++ text, properties ++ ps)) := by
  fun_induction rewrite forms place offset rest generalizing before output properties
  case case1 offset rest hrest =>
    have hturn : Pass.turn forms place (before ++ rest)
        { cursor := utf8Size before, output, properties } = _ := Pass.turn_of_none rfl hrest
    simpa [Except.map] using Ends.finished hturn
  case case2 offset rest between found hrest start u hsplit =>
    subst hoffset
    refine .refused ((Pass.turn_of_occurrence rfl hrest).trans ?_)
    simp only [Invocation.read, hsplit, utf8Size_append, start]
  case case3 offset rest between found hrest start split hsplit complaint hp =>
    subst hoffset
    refine .refused ((Pass.turn_of_occurrence rfl hrest).trans ?_)
    simp only [Invocation.read, hsplit, utf8Size_append, start, hp]
  case case4 offset rest between found hrest start split hsplit p hp complaint hlater ih =>
    subst hoffset
    refine .of_property rfl hrest hsplit (by rwa [utf8Size_append]) ?_
    simpa only [hlater, Except.map] using
      ih (before ++ between ++ split.consumed) (output ++ between ++ p.object.toList)
        (properties ++ [p]) (by simp only [utf8Size_append, start])
  case case5 offset rest between found hrest start split hsplit p hp text ps hlater ih =>
    subst hoffset
    refine .of_property rfl hrest hsplit (by rwa [utf8Size_append]) ?_
    simpa only [hlater, Except.map, List.append_assoc, List.singleton_append] using
      ih (before ++ between ++ split.consumed) (output ++ between ++ p.object.toList)
        (properties ++ [p]) (by simp only [utf8Size_append, start])

/-- No position in a line goes wrong, and the loop over it ends. An invocation can be read
    wherever a directive occurs, and every pass over the line comes to something. A pass
    that goes on puts the cursor forward, and not beyond the end of the line. The loop ends
    with what the line is rewritten to. -/
theorem passes_of_line (forms : Dictionary) (place : Place) (line : List Char) :
    (∀ (d : Directive) (number start : Nat), d.offset? line = some start →
      ∃ before found, line = before ++ found ∧ start = utf8Size before ∧
        Invocation.readAt d forms number line start =
          .ok (Invocation.read d forms number start found)) ∧
    (∀ pass, Reached forms place line pass → ∃ turn, pass.turn forms place line = .ok turn ∧
      ∀ next, turn = .goesOn next →
        pass.cursor < next.cursor ∧ next.cursor ≤ utf8Size line) ∧
    Ends forms place line {} (rewrite forms place 0 line) := by
  refine ⟨fun d number start hstart => ?_, fun pass hpass => ?_, ?_⟩
  · obtain ⟨⟨before, found⟩, hsplit, rfl⟩ := Option.map_eq_some_iff.1 hstart
    obtain rfl := Directive.append_of_occurrence? hsplit
    exact ⟨before, found, rfl, rfl, Invocation.readAt_append d forms number before found⟩
  · obtain ⟨turn, hturn, hnext⟩ := hpass.within.turn forms place
    refine ⟨turn, hturn, fun next hgoes => ?_⟩
    obtain ⟨⟨before, rest, rfl, hcursor⟩, hlt⟩ := hnext next hgoes
    refine ⟨hlt, ?_⟩
    rw [hcursor, utf8Size_append]
    exact Nat.le_add_right _ _
  · have hends : Ends forms place line {} ((rewrite forms place 0 line).map _) :=
      ends_rewrite [] line [] [] rfl
    cases hrewrite : rewrite forms place 0 line with
    | error complaint => simpa only [hrewrite, Except.map] using hends
    | ok result => simpa only [hrewrite, Except.map, List.nil_append] using hends

end Property

end PaperGraph
