import Mathlib.Data.List.Nodup
import PaperGraph.Graph.Turtle
import PaperGraph.Proofs.NTriplesRoundTrip
import PaperGraph.Proofs.Orders

/-!
# Terms in Turtle

A term is told from its text, and from what follows, although there is no reader
that could be asked (`Turtle.Told`). An IRI in brackets ends at the first `>`; a
shortened one starts with a word, which only one namespace has; a literal ends
at the first quotation mark that is not escaped; everything else ends at a stop.

* `Turtle.told_writeIri`, `Turtle.told_writeTerm`: IRIs and terms;
* `Turtle.newline_not_mem_writeTerm`: a term does not break the line.
-/

namespace PaperGraph.Turtle

open Text

/-! ## What is told -/

/-- The characters that stand behind a term. -/
def IsStop (c : Char) : Prop :=
  c = ' ' ∨ c = '\n'

/-- Things are told from what is written of them, and from what follows, where a
    stop comes first. -/
def Told {α : Type} (P : α → Prop) (text : α → String) : Prop :=
  ∀ ⦃a b : α⦄, P a → P b → ∀ ⦃stop : Char⦄, IsStop stop → ∀ ⦃rest rest' : List Char⦄,
    (text a).toList ++ stop :: rest = (text b).toList ++ stop :: rest' → a = b ∧ rest = rest'

/-! ## IRIs -/

/-- Short forms that are words. -/
def AreWords (namespaces : Dictionary) : Prop :=
  ∀ entry ∈ namespaces.entries, entry.1 ≠ "" ∧ ∀ c ∈ entry.1.toList, c.isAlpha

/-- Whether a character may stand in a plain name. -/
def isNameChar (c : Char) : Bool :=
  c.isAlphanum || c = '_' || c = '-'

theorem IsStop.not_isNameChar {c : Char} (h : IsStop c) : ¬ isNameChar c := by
  rcases h with rfl | rfl <;> decide

theorem IsStop.not_isTagChar {c : Char} (h : IsStop c) : ¬ NTriples.isTagChar c := by
  rcases h with rfl | rfl <;> decide

theorem IsStop.isBlank {c : Char} (h : IsStop c) : Text.isBlank c := by
  rcases h with rfl | rfl <;> decide

theorem isNameChar_of_isPlainName {name : List Char} (h : isPlainName name) :
    ∀ c ∈ name, isNameChar c := by
  rw [isPlainName, Bool.and_eq_true, Bool.and_eq_true] at h
  exact List.all_eq_true.1 h.1.2

/-- The two forms of an IRI. -/
inductive IriForm (namespaces : Dictionary) (iri : String) : List Char → Prop
  /-- The whole IRI in brackets. -/
  | whole : IriForm namespaces iri ('<' :: (iri.toList ++ ['>']))
  /-- A namespace, and what follows it. -/
  | short {entry : String × String} {name : List Char} (hentry : entry ∈ namespaces.entries)
    (hname : isPlainName name) (hiri : iri.toList = entry.2.toList ++ name) :
    IriForm namespaces iri (entry.1.toList ++ ':' :: name)

theorem iriForm_writeIri (namespaces : Dictionary) (iri : String) :
    IriForm namespaces iri (writeIri namespaces iri).toList := by
  simp only [writeIri]
  cases hfound : namespaces.entries.findSome? _ with
  | none =>
    have htext : ("<" ++ iri ++ ">").toList = '<' :: (iri.toList ++ ['>']) := by simp
    rw [Option.getD_none, htext]
    exact .whole
  | some text =>
    obtain ⟨entry, hentry, hshort⟩ := List.exists_of_findSome?_eq_some hfound
    split at hshort
    · next name hname =>
      split at hshort
      · next hplain =>
        obtain rfl := Option.some.inj hshort
        have htext : (entry.1 ++ ":" ++ String.ofList name).toList =
            entry.1.toList ++ ':' :: name := by simp
        rw [Option.getD_some, htext]
        exact .short hentry hplain (append_of_stripStart? hname)
      · simp at hshort
    · simp at hshort

section

variable {namespaces : Dictionary}

/-- A short form stands for one namespace. -/
theorem entry_unique {entry other : String × String} (h : entry ∈ namespaces.entries)
    (h' : other ∈ namespaces.entries) (he : entry.1 = other.1) : entry = other := by
  have hnodup : (namespaces.entries.map (·.1)).Nodup := by
    refine List.pairwise_map.2 (namespaces.ordered.imp ?_)
    intro a b hlt hab
    rw [hab] at hlt
    exact String.lt_irrefl _ hlt
  exact List.inj_on_of_nodup_map hnodup h h' he

theorem AreWords.exists_letter (hwords : AreWords namespaces) {entry : String × String}
    (h : entry ∈ namespaces.entries) : ∃ c more, entry.1.toList = c :: more ∧ c.isAlpha := by
  obtain ⟨hne, hletters⟩ := hwords entry h
  obtain ⟨c, more, hword⟩ := List.exists_cons_of_ne_nil (String.toList_eq_nil_iff.not.2 hne)
  exact ⟨c, more, hword, hletters c (by rw [hword]; exact List.mem_cons_self)⟩

/-- The characters of a shortened IRI. -/
theorem AreWords.isNameChar_or_colon (hwords : AreWords namespaces) {entry : String × String}
    (h : entry ∈ namespaces.entries) {name : List Char} (hname : isPlainName name) :
    ∀ c ∈ entry.1.toList ++ ':' :: name, isNameChar c ∨ c = ':' := by
  intro c hc
  rcases List.mem_append.1 hc with hc | hc
  · exact .inl (by simp [isNameChar, Char.isAlphanum, (hwords entry h).2 c hc])
  · rcases List.mem_cons.1 hc with rfl | hc
    · exact .inr rfl
    · exact .inl (isNameChar_of_isPlainName hname c hc)

theorem told_writeIri (hwords : AreWords namespaces) :
    Told (fun iri => (Term.iri iri).WellFormed) (writeIri namespaces) := by
  intro a b ha hb stop hstop rest rest' h
  have hclosed : ∀ {iri : String}, (Term.iri iri).WellFormed → ∀ c ∈ iri.toList, c ≠ '>' :=
    fun hiri c hc => (hiri c hc).1
  have hformA := iriForm_writeIri namespaces a
  have hformB := iriForm_writeIri namespaces b
  generalize (writeIri namespaces a).toList = textA at h hformA
  generalize (writeIri namespaces b).toList = textB at h hformB
  cases hformA with
  | whole =>
    cases hformB with
    | whole =>
      have h : a.toList ++ '>' :: stop :: rest = b.toList ++ '>' :: stop :: rest' := by
        simpa using h
      obtain ⟨hiri, _, hrest⟩ := run_append_inj (p := fun c => c ≠ '>') (by simpa using hclosed ha)
        (by simpa using hclosed hb) (by decide) (by decide) h
      exact ⟨String.toList_inj.1 hiri, (List.cons.inj hrest).2⟩
    | short hentry hname hiri =>
      obtain ⟨c, more, hword, hc⟩ := hwords.exists_letter hentry
      rw [hword] at h
      obtain rfl := (List.cons.inj h).1
      exact absurd hc (by decide)
  | @short entry name hentry hname hiri =>
    cases hformB with
    | whole =>
      obtain ⟨c, more, hword, hc⟩ := hwords.exists_letter hentry
      rw [hword] at h
      obtain rfl := (List.cons.inj h).1
      exact absurd hc (by decide)
    | @short other name' hother hname' hiri' =>
      rw [List.append_assoc, List.append_assoc] at h
      obtain ⟨hshort, _, hafter⟩ := run_append_inj (hwords entry hentry).2 (hwords other hother).2
        (by decide) (by decide) h
      obtain rfl := entry_unique hentry hother (String.toList_inj.1 hshort)
      obtain ⟨rfl, _, hrest⟩ := run_append_inj (isNameChar_of_isPlainName hname)
        (isNameChar_of_isPlainName hname') hstop.not_isNameChar hstop.not_isNameChar hafter
      exact ⟨String.toList_inj.1 (hiri.trans hiri'.symm), hrest⟩

/-! ## Terms -/

/-- What is written after the closing quote of a literal. -/
def writeTag (namespaces : Dictionary) (datatype language : Option String) : String :=
  match language, datatype with
  | some tag, _ => "@" ++ tag
  | none, some iri => "^^" ++ writeIri namespaces iri
  | none, none => ""

@[simp]
theorem writeTerm_literal (value : String) (datatype language : Option String) :
    writeTerm namespaces (.literal value datatype language) =
      "\"" ++ NTriples.escape value ++ "\"" ++ writeTag namespaces datatype language := rfl

theorem told_writeTag (hwords : AreWords namespaces) :
    Told (fun tag : Option String × Option String => (Term.literal "" tag.1 tag.2).WellFormed)
      (fun tag => writeTag namespaces tag.1 tag.2) := by
  rintro ⟨datatype, language⟩ ⟨datatype', language'⟩ ⟨hiri, htag, hone⟩ ⟨hiri', htag', hone'⟩
    stop hstop rest rest' h
  have hmark : stop ≠ '@' ∧ stop ≠ '^' := by
    rcases hstop with rfl | rfl <;> decide
  dsimp only at hiri htag hone hiri' htag' hone' h
  cases language with
  | none =>
    cases language' with
    | none =>
      cases datatype with
      | none =>
        cases datatype' with
        | none => exact ⟨rfl, by simpa [writeTag] using h⟩
        | some iri' => simp [writeTag, hmark.2] at h
      | some iri =>
        cases datatype' with
        | none => simp [writeTag, hmark.2.symm] at h
        | some iri' =>
          have h : (writeIri namespaces iri).toList ++ stop :: rest =
              (writeIri namespaces iri').toList ++ stop :: rest' := by
            simpa [writeTag] using h
          obtain ⟨rfl, hrest⟩ := told_writeIri hwords (hiri iri rfl) (hiri' iri' rfl) hstop h
          exact ⟨rfl, hrest⟩
    | some tag' => cases datatype <;> simp [writeTag, hmark.1] at h
  | some tag =>
    obtain rfl : datatype = none := hone.resolve_right (by simp)
    cases language' with
    | none => cases datatype' <;> simp [writeTag, hmark.1.symm] at h
    | some tag' =>
      obtain rfl : datatype' = none := hone'.resolve_right (by simp)
      have h : tag.toList ++ stop :: rest = tag'.toList ++ stop :: rest' := by
        simpa [writeTag] using h
      have hchars : ∀ c ∈ tag.toList, NTriples.isTagChar c := fun c hc => by
        simpa [NTriples.isTagChar] using htag tag rfl c hc
      have hchars' : ∀ c ∈ tag'.toList, NTriples.isTagChar c := fun c hc => by
        simpa [NTriples.isTagChar] using htag' tag' rfl c hc
      obtain ⟨he, _, hrest⟩ :=
        run_append_inj hchars hchars' hstop.not_isTagChar hstop.not_isTagChar h
      obtain rfl := String.toList_inj.1 he
      exact ⟨rfl, hrest⟩

/-- The place in the order of the terms whose text starts with a character. -/
def rankOfStart (c : Char) : Nat :=
  if c = '_' then 1 else if c = '"' then 2 else 0

theorem rankOfStart_writeTerm (hwords : AreWords namespaces) (t : Term) :
    (writeTerm namespaces t).toList.head?.map rankOfStart = some t.rank := by
  cases t with
  | iri iri =>
    rw [writeTerm]
    have hform := iriForm_writeIri namespaces iri
    generalize (writeIri namespaces iri).toList = text at hform
    cases hform with
    | whole => rfl
    | short hentry hname hiri =>
      obtain ⟨c, more, hword, hc⟩ := hwords.exists_letter hentry
      -- A letter is neither of the two signs.
      have hblank : c ≠ '_' := fun he => absurd (he ▸ hc) (by decide)
      have hliteral : c ≠ '"' := fun he => absurd (he ▸ hc) (by decide)
      simp [hword, rankOfStart, hblank, hliteral, Term.rank]
  | blank label => simp [writeTerm, rankOfStart, Term.rank]
  | literal value datatype language => simp [rankOfStart, Term.rank]

theorem told_writeTerm (hwords : AreWords namespaces) :
    Told Term.WellFormed (writeTerm namespaces) := by
  intro t u ht hu stop hstop rest rest' h
  have hrank : t.rank = u.rank := by
    have hstart (v : Term) (after : List Char) :
        ((writeTerm namespaces v).toList ++ after).head?.map rankOfStart = some v.rank := by
      have hv := rankOfStart_writeTerm hwords v
      cases htext : (writeTerm namespaces v).toList with
      | nil => simp [htext] at hv
      | cons c more => simpa [htext] using hv
    have hheads := congrArg (fun text : List Char => text.head?.map rankOfStart) h
    rw [hstart, hstart] at hheads
    exact Option.some.inj hheads
  cases t with
  | iri iri =>
    cases u with
    | iri iri' =>
      obtain ⟨rfl, hrest⟩ := told_writeIri hwords ht hu hstop h
      exact ⟨rfl, hrest⟩
    | blank => simp [Term.rank] at hrank
    | literal => simp [Term.rank] at hrank
  | blank label =>
    cases u with
    | iri => simp [Term.rank] at hrank
    | blank label' =>
      have h : label.toList ++ stop :: rest = label'.toList ++ stop :: rest' := by
        simpa [writeTerm] using h
      obtain ⟨he, _, hrest⟩ := run_append_inj (p := fun c => ! isBlank c)
        (by simpa using ht.2) (by simpa using hu.2) (by simp [hstop.isBlank])
        (by simp [hstop.isBlank]) h
      obtain rfl := String.toList_inj.1 he
      exact ⟨rfl, hrest⟩
    | literal => simp [Term.rank] at hrank
  | literal value datatype language =>
    cases u with
    | iri => simp [Term.rank] at hrank
    | blank => simp [Term.rank] at hrank
    | literal value' datatype' language' =>
      have h : value.toList.flatMap NTriples.escapeChar ++
            '"' :: ((writeTag namespaces datatype language).toList ++ stop :: rest) =
          value'.toList.flatMap NTriples.escapeChar ++
            '"' :: ((writeTag namespaces datatype' language').toList ++ stop :: rest') := by
        simpa using h
      -- The reader of literals ends at the same quotation mark on both sides.
      have hread := congrArg NTriples.readQuoted h
      rw [NTriples.readQuoted_escaped, NTriples.readQuoted_escaped] at hread
      obtain ⟨hvalue, hafter⟩ := Prod.mk.inj (Except.ok.inj hread)
      obtain rfl := String.toList_inj.1 hvalue
      obtain ⟨htag, hrest⟩ :=
        told_writeTag hwords (a := (datatype, language)) (b := (datatype', language'))
          ht hu hstop hafter
      obtain ⟨rfl, rfl⟩ := Prod.mk.inj htag
      exact ⟨rfl, hrest⟩

/-! ## Lines -/

theorem newline_not_mem_writeIri (hwords : AreWords namespaces) {iri : String}
    (h : (Term.iri iri).WellFormed) : '\n' ∉ (writeIri namespaces iri).toList := by
  have hform := iriForm_writeIri namespaces iri
  generalize (writeIri namespaces iri).toList = text at hform
  cases hform with
  | whole =>
    have hiri : '\n' ∉ iri.toList := fun hm => (h _ hm).2 rfl
    simpa using hiri
  | short hentry hname hiri =>
    exact fun hm => absurd (hwords.isNameChar_or_colon hentry hname _ hm) (by decide)

theorem newline_not_mem_writeTerm (hwords : AreWords namespaces) {t : Term} (h : t.WellFormed) :
    '\n' ∉ (writeTerm namespaces t).toList := by
  cases t with
  | iri iri => exact newline_not_mem_writeIri hwords h
  | blank label =>
    have hlabel : '\n' ∉ label.toList := fun hm => h.2 _ hm (by decide)
    simpa [writeTerm] using hlabel
  | literal value datatype language =>
    have hvalue : ∀ c ∈ value.toList, '\n' ∉ NTriples.escapeChar c :=
      fun c _ => NTriples.newline_not_mem_escapeChar c
    have htag : '\n' ∉ (writeTag namespaces datatype language).toList := by
      obtain ⟨hiri, htag, _⟩ := h
      match language, datatype with
      | some tag, _ =>
        have htag : '\n' ∉ tag.toList := fun hm => absurd (htag tag rfl _ hm) (by decide)
        simpa [writeTag] using htag
      | none, some iri => simpa [writeTag] using newline_not_mem_writeIri hwords (hiri iri rfl)
      | none, none => simp [writeTag]
    simpa using ⟨hvalue, htag⟩

/-- A subject does not end in a carriage return, which would be lost with the
    newline. -/
theorem getLast?_writeTerm (hwords : AreWords namespaces) {t : Term} (hnode : t.isNode)
    (h : t.WellFormed) :
    (writeTerm namespaces t).toList.getLast? ≠ some '\r' := by
  cases t with
  | iri iri =>
    rw [writeTerm]
    have hform := iriForm_writeIri namespaces iri
    generalize (writeIri namespaces iri).toList = text at hform
    cases hform with
    | whole => simp [List.getLast?_cons]
    | short hentry hname hiri =>
      intro hlast
      exact absurd (hwords.isNameChar_or_colon hentry hname _ (List.mem_of_getLast? hlast))
        (by decide)
  | blank label =>
    have hlabel : '\r' ∉ label.toList := fun hm => h.2 _ hm (by decide)
    intro hlast
    have hlast := List.mem_of_getLast? hlast
    simp [writeTerm, hlabel] at hlast
  | literal => simp [Term.isNode] at hnode

end

end PaperGraph.Turtle
