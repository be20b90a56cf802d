import PaperGraph.Proofs.Confinement

/-!
# Lists of pairs

A list of pairs is cut at its commas. A part of it without an equality sign is malformed,
unless it is blank; a blank part stands for nothing, and any other one is cut at its first
equality sign. So an object may have equality signs in it, a predicate or an object may be
empty, and the blanks around all of these do not matter. A list is read as some pairs exactly
if it is one of the ways to write these, and otherwise its first malformed part is told, with
the place of the export.

* `Item`: a part of a list, as it is written;
* `readItem_trim`, `exists_item`: how one part is read;
* `ofParts_eq_ok_iff`, `ofParts_eq_error_iff`: how the parts are read one after the other;
* `parse_as_written`: which lists are read as which pairs, which ones are refused, and for
  which item, and what becomes of an export then.
-/

namespace PaperGraph.Pairs

open Text

/-! ## Items -/

/-- The part is not blank, and has no equality sign. -/
def IsMalformed (part : List Char) : Prop :=
  trim part ≠ [] ∧ '=' ∉ part

/-- A part of a list, as it is written. -/
inductive Item where
  /-- No pair, but perhaps some blanks. -/
  | empty (blanks : List Char)
  /-- A pair, with blanks around it and around its equality sign. -/
  | pair (lead predicate before after object trail : List Char)
deriving DecidableEq, Repr

namespace Item

/-- The text of an item. -/
def text : Item → List Char
  | empty blanks => blanks
  | pair lead predicate before after object trail =>
    lead ++ predicate ++ before ++ '=' :: (after ++ object ++ trail)

/-- The pair that an item stands for, if there is one. -/
def pair? : Item → Option (String × String)
  | empty _ => none
  | pair _ predicate _ _ object _ => some (String.ofList predicate, String.ofList object)

/-- The parts of an item are what they are said to be. -/
def WellFormed : Item → Prop
  | empty blanks => ∀ c ∈ blanks, isBlank c
  | pair lead predicate before after object trail =>
    (∀ c ∈ lead ++ before ++ after ++ trail, isBlank c) ∧
      (',' ∉ predicate ∧ '=' ∉ predicate ∧ IsTrimmed predicate) ∧
      ',' ∉ object ∧ IsTrimmed object

variable {i : Item}

theorem WellFormed.comma_not_mem (h : i.WellFormed) : ',' ∉ i.text := by
  cases i with
  | empty blanks => exact fun hmem => absurd (h _ hmem) (by decide)
  | pair lead predicate before after object trail =>
    obtain ⟨hblank, ⟨hpredicate, -⟩, hobject, -⟩ := h
    have hnot : ',' ∉ lead ++ before ++ after ++ trail := fun hmem =>
      absurd (hblank _ hmem) (by decide)
    simp only [List.mem_append, not_or] at hnot
    simp [text, hnot, hpredicate, hobject]

end Item

/-! ## Parts -/

/-- What an equality sign separates is read without the blanks around. -/
theorem readItem_trim {before after : List Char} (h : '=' ∉ before) :
    readItem (trim (before ++ '=' :: after)) =
      .ok (String.ofList (trim before), String.ofList (trim after)) := by
  have hsign : '=' ∈ trim (before ++ '=' :: after) := (mem_trim_iff (by decide)).2 (by simp)
  obtain ⟨lead, trail, htext, hlead, htrail⟩ := exists_surrounded (before ++ '=' :: after)
  obtain ⟨start, rest, htrim, hstart⟩ := List.eq_append_cons_of_mem hsign
  -- What trimming leaves is cut at the same sign.
  have hfront : '=' ∉ lead ++ start := by
    rw [List.mem_append, not_or]
    exact ⟨fun hmem => absurd (hlead _ hmem) (by decide), hstart⟩
  have hcut := cutAt?_append h after
  rw [htext, htrim, List.append_assoc, List.append_assoc, ← List.append_assoc, List.cons_append,
    cutAt?_append hfront] at hcut
  obtain ⟨rfl, rfl⟩ := Prod.mk.inj (Option.some.inj hcut)
  have hbefore : trim (lead ++ start) = trim start := by
    simpa using trim_surrounded hlead (List.forall_mem_nil _) start
  have hafter : trim (rest ++ trail) = trim rest := by
    simpa using trim_surrounded (List.forall_mem_nil _) htrail rest
  rw [htrim, readItem, cutAt?_append hstart, hbefore, hafter]

/-- The pairs that some parts of a list stand for. -/
def ofParts (parts : List (List Char)) : Except String Facts :=
  ((parts.map trim).filter (· ≠ [])).mapM readItem

variable {list part item : List Char} {parts : List (List Char)}
  {pairs : Facts} {pair : String × String} {i : Item}

theorem ofParts_blank (h : trim part = []) : ofParts (part :: parts) = ofParts parts := by
  rw [ofParts, List.map_cons, List.filter_cons_of_neg (by simpa using h), ofParts]

theorem ofParts_pair (h : readItem (trim part) = .ok pair) :
    ofParts (part :: parts) = (ofParts parts).map (pair :: ·) := by
  have hne : trim part ≠ [] := by
    intro hnil
    rw [hnil] at h
    cases h
  rw [ofParts, List.map_cons, List.filter_cons_of_pos (by simpa using hne), List.mapM_cons, h,
    ofParts]
  cases ((parts.map trim).filter (· ≠ [])).mapM readItem with
  | error e => rfl
  | ok pairs => rfl

theorem ofParts_malformed (h : IsMalformed part) :
    ofParts (part :: parts) = .error (String.ofList (trim part)) := by
  have hsign : '=' ∉ trim part := fun hmem => h.2 (mem_of_mem_trim hmem)
  rw [ofParts, List.map_cons, List.filter_cons_of_pos (by simpa using h.1), List.mapM_cons,
    readItem_eq_error_iff.2 ⟨hsign, rfl⟩]
  rfl

/-- An item stands for a pair or for nothing. -/
theorem ofParts_text (h : i.WellFormed) :
    ofParts (i.text :: parts) = (ofParts parts).map (i.pair?.toList ++ ·) := by
  cases i with
  | empty blanks =>
    have hnil : trim blanks = trim [] := by simpa using trim_surrounded h (List.forall_mem_nil _) []
    rw [Item.text, ofParts_blank hnil]
    cases ofParts parts with
    | error e => rfl
    | ok pairs => rfl
  | pair lead predicate before after object trail =>
    obtain ⟨hblank, ⟨-, hsign, hpredicate⟩, -, hobject⟩ := h
    simp only [List.forall_mem_append] at hblank
    obtain ⟨⟨⟨hlead, hbefore⟩, hafter⟩, htrail⟩ := hblank
    have hfront : '=' ∉ lead ++ predicate ++ before := by
      simp only [List.mem_append, not_or]
      exact ⟨⟨fun hmem => absurd (hlead _ hmem) (by decide), hsign⟩,
        fun hmem => absurd (hbefore _ hmem) (by decide)⟩
    have hread :
        readItem (trim (lead ++ predicate ++ before ++ '=' :: (after ++ object ++ trail))) =
          .ok (String.ofList predicate, String.ofList object) := by
      rw [readItem_trim hfront, trim_surrounded hlead hbefore, trim_surrounded hafter htrail,
        trim_eq_self hpredicate.first hpredicate.last, trim_eq_self hobject.first hobject.last]
    rw [Item.text, ofParts_pair hread]
    rfl

theorem Item.WellFormed.not_isMalformed (h : i.WellFormed) : ¬ IsMalformed i.text := by
  intro hbad
  have htext : ofParts [i.text] = _ := ofParts_text h
  rw [ofParts_malformed hbad] at htext
  cases htext

/-- A part that is not malformed is the text of an item. -/
theorem exists_item (hcomma : ',' ∉ part) (h : ¬ IsMalformed part) :
    ∃ i : Item, i.WellFormed ∧ i.text = part := by
  by_cases hsign : '=' ∈ part
  · obtain ⟨front, back, rfl, hfront⟩ := List.eq_append_cons_of_mem hsign
    obtain ⟨lead, before, hpredicate, hlead, hbefore⟩ := exists_surrounded front
    obtain ⟨after, trail, hobject, hafter, htrail⟩ := exists_surrounded back
    refine ⟨.pair lead (trim front) before after (trim back) trail, ⟨?_, ⟨?_, ?_, ?_⟩, ?_, ?_⟩, ?_⟩
    · simp only [List.forall_mem_append]
      exact ⟨⟨⟨hlead, hbefore⟩, hafter⟩, htrail⟩
    · exact fun hmem => hcomma (by simp [mem_of_mem_trim hmem])
    · exact fun hmem => hfront (mem_of_mem_trim hmem)
    · exact isTrimmed_trim front
    · exact fun hmem => hcomma (by simp [mem_of_mem_trim hmem])
    · exact isTrimmed_trim back
    · rw [Item.text, ← hpredicate, ← hobject]
  · have hnil : trim part = [] := by
      by_contra hne
      exact h ⟨hne, hsign⟩
    obtain ⟨lead, trail, hpart, hlead, htrail⟩ := exists_surrounded part
    refine ⟨.empty part, fun c hc => ?_, rfl⟩
    rw [hpart, hnil, List.append_nil, List.mem_append] at hc
    exact hc.elim (hlead c) (htrail c)

/-- Parts are read as pairs if they are the texts of items, and not otherwise. -/
theorem ofParts_eq_ok_iff (hcomma : ∀ part ∈ parts, ',' ∉ part) : ofParts parts = .ok pairs ↔
    ∃ items : List Item, (∀ i ∈ items, i.WellFormed) ∧ parts = items.map Item.text ∧
      pairs = items.filterMap Item.pair? := by
  constructor
  · intro h
    induction parts generalizing pairs with
    | nil => exact ⟨[], by simp, rfl, (Except.ok.inj h).symm⟩
    | cons part parts ih =>
      obtain ⟨hpart, hparts⟩ := List.forall_mem_cons.1 hcomma
      have hwell : ¬ IsMalformed part := fun hbad => by
        rw [ofParts_malformed hbad] at h
        cases h
      obtain ⟨i, hi, rfl⟩ := exists_item hpart hwell
      rw [ofParts_text hi] at h
      obtain ⟨rest, hrest, rfl⟩ := map_eq_ok_iff.1 h
      obtain ⟨items, hitems, rfl, rfl⟩ := ih hparts hrest
      refine ⟨i :: items, List.forall_mem_cons.2 ⟨hi, hitems⟩, rfl, ?_⟩
      cases hpair : i.pair? with
      | none => rw [List.filterMap_cons_none hpair]; rfl
      | some pair => rw [List.filterMap_cons_some hpair]; rfl
  · rintro ⟨items, hitems, rfl, rfl⟩
    clear hcomma
    induction items with
    | nil => rfl
    | cons i items ih =>
      obtain ⟨hi, hitems⟩ := List.forall_mem_cons.1 hitems
      rw [List.map_cons, ofParts_text hi, ih hitems]
      cases hpair : i.pair? with
      | none => rw [List.filterMap_cons_none hpair]; rfl
      | some pair => rw [List.filterMap_cons_some hpair]; rfl

/-- The first malformed part of some is what they are refused for. -/
theorem ofParts_eq_error_iff {text : String} (hcomma : ∀ part ∈ parts, ',' ∉ part) :
    ofParts parts = .error text ↔ ∃ front part back, parts = front ++ part :: back ∧
      (∀ other ∈ front, ¬ IsMalformed other) ∧ IsMalformed part ∧
      text = String.ofList (trim part) := by
  constructor
  · intro h
    induction parts with
    | nil => cases h
    | cons part parts ih =>
      obtain ⟨hpart, hparts⟩ := List.forall_mem_cons.1 hcomma
      by_cases hbad : IsMalformed part
      · rw [ofParts_malformed hbad] at h
        exact ⟨[], part, parts, rfl, by simp, hbad, (Except.error.inj h).symm⟩
      · obtain ⟨i, hi, rfl⟩ := exists_item hpart hbad
        have hrest : ofParts parts = .error text := by
          rw [ofParts_text hi] at h
          cases hresult : ofParts parts with
          | error e => rwa [hresult] at h
          | ok pairs => rw [hresult] at h; cases h
        obtain ⟨front, other, back, rfl, hfront, hother⟩ := ih hparts hrest
        exact ⟨i.text :: front, other, back, rfl, List.forall_mem_cons.2 ⟨hbad, hfront⟩, hother⟩
  · rintro ⟨front, part, back, rfl, hfront, hbad, rfl⟩
    induction front with
    | nil => exact ofParts_malformed hbad
    | cons other front ih =>
      obtain ⟨hother, hothers⟩ := List.forall_mem_cons.1 hfront
      obtain ⟨hpart, hparts⟩ := List.forall_mem_cons.1 hcomma
      obtain ⟨i, hi, rfl⟩ := exists_item hpart hother
      rw [List.cons_append, ofParts_text hi, ih hparts hothers]
      rfl

/-! ## Lists -/

theorem exists_parts (list : List Char) : ∃ parts, parts ≠ [] ∧ (∀ part ∈ parts, ',' ∉ part) ∧
    splitAt ',' list = parts ∧ list = List.intercalate [','] parts :=
  ⟨splitAt ',' list, splitAt_ne_nil ',' list, fun _ => separator_not_mem, rfl,
    (intercalate_splitAt ',' list).symm⟩

theorem parse_eq_ofParts (hne : parts ≠ []) (hcomma : ∀ part ∈ parts, ',' ∉ part) :
    parse (List.intercalate [','] parts) = ofParts parts := by
  rw [parse, Pairs.items, splitAt_intercalate hne hcomma, ofParts]

/-- The item is what is left of the first malformed part of the list. -/
def FirstMalformed (list item : List Char) : Prop :=
  ∃ front part back, list = List.intercalate [','] (front ++ part :: back) ∧
    (∀ other ∈ front ++ part :: back, ',' ∉ other) ∧ (∀ other ∈ front, ¬ IsMalformed other) ∧
    IsMalformed part ∧ item = trim part

theorem parse_eq_ok_iff : parse list = .ok pairs ↔
    ∃ items : List Item, (∀ i ∈ items, i.WellFormed) ∧
      list = List.intercalate [','] (items.map Item.text) ∧ pairs = items.filterMap Item.pair? := by
  constructor
  · intro h
    obtain ⟨parts, hne, hcomma, -, rfl⟩ := exists_parts list
    rw [parse_eq_ofParts hne hcomma, ofParts_eq_ok_iff hcomma] at h
    obtain ⟨items, hitems, rfl, hpairs⟩ := h
    exact ⟨items, hitems, rfl, hpairs⟩
  · rintro ⟨items, hitems, rfl, hpairs⟩
    have hcomma : ∀ part ∈ items.map Item.text, ',' ∉ part := by
      rw [List.forall_mem_map]
      exact fun i hi => (hitems i hi).comma_not_mem
    by_cases hnil : items = []
    · rw [hpairs, hnil]
      rfl
    · rw [parse_eq_ofParts (by simpa using hnil) hcomma, ofParts_eq_ok_iff hcomma]
      exact ⟨items, hitems, rfl, hpairs⟩

theorem parse_eq_error_iff {text : String} :
    parse list = .error text ↔ ∃ item, FirstMalformed list item ∧ text = String.ofList item := by
  constructor
  · intro h
    obtain ⟨parts, hne, hcomma, -, rfl⟩ := exists_parts list
    rw [parse_eq_ofParts hne hcomma, ofParts_eq_error_iff hcomma] at h
    obtain ⟨front, part, back, rfl, hfront, hbad, rfl⟩ := h
    exact ⟨_, ⟨front, part, back, rfl, hcomma, hfront, hbad, rfl⟩, rfl⟩
  · rintro ⟨-, ⟨front, part, back, rfl, hcomma, hfront, hbad, rfl⟩, rfl⟩
    rw [parse_eq_ofParts (by simp) hcomma, ofParts_eq_error_iff hcomma]
    exact ⟨front, part, back, rfl, hfront, hbad, rfl⟩

/-- A list is refused if a part of it is malformed, and not otherwise. -/
theorem exists_parse_eq_error_iff :
    (∃ text, parse list = .error text) ↔ ∃ part ∈ splitAt ',' list, IsMalformed part := by
  obtain ⟨parts, hne, hcomma, hparts, hlist⟩ := exists_parts list
  rw [hparts, hlist, parse_eq_ofParts hne hcomma]
  constructor
  · rintro ⟨text, h⟩
    obtain ⟨front, part, back, rfl, -, hbad, -⟩ := (ofParts_eq_error_iff hcomma).1 h
    exact ⟨part, by simp, hbad⟩
  · rintro ⟨part, hpart, hbad⟩
    cases hresult : ofParts parts with
    | error text => exact ⟨text, rfl⟩
    | ok pairs =>
      -- Then all parts are the texts of items.
      obtain ⟨items, hitems, rfl, -⟩ := (ofParts_eq_ok_iff hcomma).1 hresult
      obtain ⟨i, hi, rfl⟩ := List.mem_map.1 hpart
      exact absurd hbad (hitems i hi).not_isMalformed

/-- A list is read as some pairs if it is a way to write them, with blank parts in between and
    with blanks around the items and their first equality signs. It is refused if one of its
    parts is not blank and has no equality sign, for the first one of these; then the export
    is refused with that item and its own place, and it is refused for nothing else. -/
theorem parse_as_written :
    (∀ list pairs, parse list = .ok pairs ↔
      ∃ items : List Item, (∀ i ∈ items, i.WellFormed) ∧
        list = List.intercalate [','] (items.map Item.text) ∧
        pairs = items.filterMap Item.pair?) ∧
    (∀ list, (∃ text, parse list = .error text) ↔ ∃ part ∈ splitAt ',' list, IsMalformed part) ∧
    (∀ list text, parse list = .error text ↔
      ∃ item, FirstMalformed list item ∧ text = String.ofList item) ∧
    ∀ (s : RunState) (place : Place) (before found : List Char) (f : Failure),
      s.recordExport place before found = .error f ↔
        ∃ i name kind list item,
          Invocation.check .exporting s.forms place (utf8Size before) found = .ok i ∧
          i.arguments = [name, kind, list] ∧ FirstMalformed list.toList item ∧
          f = .malformedPair place.path place.line (String.ofList item) := by
  refine ⟨fun _ _ => parse_eq_ok_iff, fun _ => exists_parse_eq_error_iff,
    fun _ _ => parse_eq_error_iff, fun s place before found f => ?_⟩
  rw [RunState.recordExport_eq_error_iff]
  constructor
  · rintro ⟨i, name, kind, list, _, hcheck, hi, hparse, rfl⟩
    obtain ⟨item, hfirst, rfl⟩ := parse_eq_error_iff.1 hparse
    exact ⟨i, name, kind, list, item, hcheck, hi, hfirst, rfl⟩
  · rintro ⟨i, name, kind, list, item, hcheck, hi, hfirst, rfl⟩
    exact ⟨i, name, kind, list, _, hcheck, hi, parse_eq_error_iff.2 ⟨item, hfirst, rfl⟩, rfl⟩

/-- The object has an equality sign in it, and the second predicate is empty. -/
example : parse ", a b = x=y ,\t,=".toList = .ok [("a b", "x=y"), ("", "")] := by decide +kernel

end PaperGraph.Pairs
