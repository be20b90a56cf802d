import PaperGraph.Proofs.TurtleBlocks
import PaperGraph.Proofs.TurtleTerms

/-!
# Turtle as a canonical form

Two graphs with the same short forms are written alike if and only if they make
the same statements, and the text has a block for every subject, with a line for
every statement about it (`Turtle.write_eq_write_iff`).

The statements of a block are told from their terms, as different signs stand
behind the last one and the others, and the blocks are told from their
statements (`Turtle.writeBody_inj`). The lines are counted off in the same order
(`Turtle.lines_writeBody`).
-/

namespace PaperGraph.Turtle

open Text

section

variable {namespaces : Dictionary}

/-! ## Statements -/

theorem toList_writeStatement (t : Triple) :
    (writeStatement namespaces t).toList = ' ' :: ' ' :: ' ' :: ' ' ::
      ((writeIri namespaces t.predicate).toList ++ ' ' ::
        (writeTerm namespaces t.object).toList) := by
  simp [writeStatement]

/-- A statement is told if its subject is known. -/
theorem told_writeStatement (hwords : AreWords namespaces) (s : Term) :
    Told (fun t => t.subject = s ∧ t.WellFormed) (writeStatement namespaces) := by
  rintro t u ⟨hts, _, _, hpredicate, hobject⟩ ⟨hus, _, _, hpredicate', hobject'⟩ stop hstop
    rest rest' h
  have h : (writeIri namespaces t.predicate).toList ++ ' ' ::
        ((writeTerm namespaces t.object).toList ++ stop :: rest) =
      (writeIri namespaces u.predicate).toList ++ ' ' ::
        ((writeTerm namespaces u.object).toList ++ stop :: rest') := by
    simpa [toList_writeStatement] using h
  obtain ⟨hp, hafter⟩ := told_writeIri hwords hpredicate hpredicate' (.inl rfl) h
  obtain ⟨ho, hrest⟩ := told_writeTerm hwords hobject hobject' hstop hafter
  refine ⟨?_, hrest⟩
  cases t
  cases u
  simp_all

/-- The statements of a block. -/
def writeStatements (namespaces : Dictionary) (ts : List Triple) : String :=
  " ;\n".intercalate (ts.map (writeStatement namespaces)) ++ " .\n"

/-- What stands behind the first statement of a block, given the others. -/
def behindStatement (namespaces : Dictionary) : List Triple → List Char
  | [] => ['.', '\n']
  | t :: ts => ';' :: '\n' :: (writeStatements namespaces (t :: ts)).toList

theorem toList_writeStatements_cons (t : Triple) (ts : List Triple) :
    (writeStatements namespaces (t :: ts)).toList =
      (writeStatement namespaces t).toList ++ ' ' :: behindStatement namespaces ts := by
  cases ts with
  | nil => simp [writeStatements, behindStatement]
  | cons u ts => simp [writeStatements, behindStatement]

/-- The statements of a block are told from the dot behind the last one. -/
theorem writeStatements_append_inj (hwords : AreWords namespaces) {s : Term}
    {ts us : List Triple} (hts : ts ≠ []) (hus : us ≠ [])
    (ht : ∀ t ∈ ts, t.subject = s ∧ t.WellFormed) (hu : ∀ u ∈ us, u.subject = s ∧ u.WellFormed)
    {rest rest' : List Char} (h : (writeStatements namespaces ts).toList ++ rest =
      (writeStatements namespaces us).toList ++ rest') : ts = us ∧ rest = rest' := by
  induction ts generalizing us with
  | nil => exact absurd rfl hts
  | cons t ts ih =>
    cases us with
    | nil => exact absurd rfl hus
    | cons u us =>
      rw [toList_writeStatements_cons, toList_writeStatements_cons, List.append_assoc,
        List.append_assoc] at h
      obtain ⟨rfl, hbehind⟩ := told_writeStatement hwords s (ht t List.mem_cons_self)
        (hu u List.mem_cons_self) (.inl rfl) h
      -- A dot stands behind the last statement, a semicolon behind the others.
      cases ts with
      | nil =>
        cases us with
        | nil => exact ⟨rfl, by simpa using hbehind⟩
        | cons v us => simp [behindStatement] at hbehind
      | cons w ts =>
        cases us with
        | nil => simp [behindStatement] at hbehind
        | cons v us =>
          obtain ⟨hothers, hrest⟩ := ih (by simp) (by simp)
            (fun x hx => ht x (List.mem_cons_of_mem _ hx))
            (fun x hx => hu x (List.mem_cons_of_mem _ hx))
            (by simpa [behindStatement] using hbehind)
          exact ⟨by rw [hothers], hrest⟩

/-! ## Blocks -/

theorem toList_writeBlock (b : Term × List Triple) :
    (writeBlock namespaces b).toList = (writeTerm namespaces b.1).toList ++
      '\n' :: (writeStatements namespaces b.2).toList := by
  simp [writeBlock, writeStatements]

/-- A block of well-formed statements. -/
structure IsWritable (b : Term × List Triple) : Prop extends IsBlock b where
  /-- Every statement is well-formed. -/
  wellFormed : ∀ t ∈ b.2, t.WellFormed

theorem IsWritable.subject {b : Term × List Triple} (h : IsWritable b) :
    b.1.isNode ∧ b.1.WellFormed := by
  obtain ⟨t, ht⟩ := List.exists_mem_of_ne_nil b.2 h.ne_nil
  obtain ⟨hnode, hsubject, _⟩ := h.wellFormed t ht
  rw [← h.subject_eq t ht]
  exact ⟨hnode, hsubject⟩

theorem writeBlock_append_inj (hwords : AreWords namespaces) {b c : Term × List Triple}
    (hb : IsWritable b) (hc : IsWritable c) {rest rest' : List Char}
    (h : (writeBlock namespaces b).toList ++ rest = (writeBlock namespaces c).toList ++ rest') :
    b = c ∧ rest = rest' := by
  rw [toList_writeBlock, toList_writeBlock, List.append_assoc, List.append_assoc] at h
  obtain ⟨hsubject, hafter⟩ := told_writeTerm hwords hb.subject.2 hc.subject.2 (.inr rfl) h
  obtain ⟨hstatements, hrest⟩ := writeStatements_append_inj hwords hb.ne_nil hc.ne_nil
    (fun t ht => ⟨hb.subject_eq t ht, hb.wellFormed t ht⟩)
    (fun u hu => ⟨(hc.subject_eq u hu).trans hsubject.symm, hc.wellFormed u hu⟩) hafter
  exact ⟨Prod.ext hsubject hstatements, hrest⟩

/-- Blocks, with an empty line between two of them. -/
def writeBody (namespaces : Dictionary) (bs : List (Term × List Triple)) : String :=
  "\n".intercalate (bs.map (writeBlock namespaces))

/-- A newline and the body are a newline and a block, for every block. -/
theorem newline_toList_writeBody_cons (b : Term × List Triple) (bs : List (Term × List Triple)) :
    '\n' :: (writeBody namespaces (b :: bs)).toList =
      (b :: bs).flatMap fun b => '\n' :: (writeBlock namespaces b).toList := by
  have h := append_intercalate ['\n'] (writeBlock namespaces b).toList
    (bs.map fun b => (writeBlock namespaces b).toList)
  simpa [writeBody, Function.comp_def, List.flatMap_map] using h

theorem flatMap_writeBlock_inj (hwords : AreWords namespaces) {bs cs : List (Term × List Triple)}
    (hb : ∀ b ∈ bs, IsWritable b) (hc : ∀ c ∈ cs, IsWritable c)
    (h : bs.flatMap (fun b => '\n' :: (writeBlock namespaces b).toList) =
      cs.flatMap fun c => '\n' :: (writeBlock namespaces c).toList) : bs = cs := by
  induction bs generalizing cs with
  | nil =>
    cases cs with
    | nil => rfl
    | cons c cs => simp at h
  | cons b bs ih =>
    cases cs with
    | nil => simp at h
    | cons c cs =>
      rw [List.flatMap_cons, List.flatMap_cons, List.cons_append, List.cons_append] at h
      obtain ⟨rfl, hothers⟩ := writeBlock_append_inj hwords (hb b List.mem_cons_self)
        (hc c List.mem_cons_self) (List.cons.inj h).2
      rw [ih (fun d hd => hb d (List.mem_cons_of_mem _ hd))
        (fun d hd => hc d (List.mem_cons_of_mem _ hd)) hothers]

theorem toList_writeBody_cons_ne_nil (b : Term × List Triple) (bs : List (Term × List Triple)) :
    (writeBody namespaces (b :: bs)).toList ≠ [] := by
  intro h
  have hlist : '\n' :: (writeBody namespaces (b :: bs)).toList = _ :=
    newline_toList_writeBody_cons b bs
  rw [h, List.flatMap_cons, toList_writeBlock] at hlist
  simp at hlist

theorem writeBody_inj (hwords : AreWords namespaces) {bs cs : List (Term × List Triple)}
    (hb : ∀ b ∈ bs, IsWritable b) (hc : ∀ c ∈ cs, IsWritable c)
    (h : writeBody namespaces bs = writeBody namespaces cs) : bs = cs := by
  have h := congrArg String.toList h
  cases bs with
  | nil =>
    cases cs with
    | nil => rfl
    | cons c cs => exact absurd h.symm (toList_writeBody_cons_ne_nil c cs)
  | cons b bs =>
    cases cs with
    | nil => exact absurd h (toList_writeBody_cons_ne_nil b bs)
    | cons c cs =>
      refine flatMap_writeBlock_inj hwords hb hc ?_
      rw [← newline_toList_writeBody_cons, h, newline_toList_writeBody_cons]

/-! ## Lines -/

/-- The lines for the statements of a block, one for each. -/
def statementLines (namespaces : Dictionary) : List Triple → List String
  | [] => []
  | [t] => [writeStatement namespaces t ++ " ."]
  | t :: u :: ts => (writeStatement namespaces t ++ " ;") :: statementLines namespaces (u :: ts)

/-- The lines of a block: one for the subject, and one for every statement. -/
def blockLines (namespaces : Dictionary) (b : Term × List Triple) : List String :=
  writeTerm namespaces b.1 :: statementLines namespaces b.2

theorem newline_not_mem_writeStatement (hwords : AreWords namespaces) {t : Triple}
    (h : t.WellFormed) : '\n' ∉ (writeStatement namespaces t).toList := by
  obtain ⟨_, _, hpredicate, hobject⟩ := h
  have hpredicate := newline_not_mem_writeIri hwords hpredicate
  have hobject := newline_not_mem_writeTerm hwords hobject
  simp [toList_writeStatement, hpredicate, hobject]

theorem lines_writeStatements (hwords : AreWords namespaces) {ts : List Triple} (hne : ts ≠ [])
    (h : ∀ t ∈ ts, t.WellFormed) (rest : List Char) :
    lines ((writeStatements namespaces ts).toList ++ rest) =
      (statementLines namespaces ts).map String.toList ++ lines rest := by
  induction ts with
  | nil => exact absurd rfl hne
  | cons t ts ih =>
    have hline := newline_not_mem_writeStatement hwords (h t List.mem_cons_self)
    cases ts with
    | nil =>
      have htext : (writeStatements namespaces [t]).toList ++ rest =
          (writeStatement namespaces t ++ " .").toList ++ '\n' :: rest := by
        simp [toList_writeStatements_cons, behindStatement]
      rw [htext, lines_cons (by simpa using hline) (by simp)]
      rfl
    | cons u ts =>
      have htext : (writeStatements namespaces (t :: u :: ts)).toList ++ rest =
          (writeStatement namespaces t ++ " ;").toList ++ '\n' ::
            ((writeStatements namespaces (u :: ts)).toList ++ rest) := by
        rw [toList_writeStatements_cons, behindStatement]
        simp
      rw [htext, lines_cons (by simpa using hline) (by simp),
        ih (by simp) fun v hv => h v (List.mem_cons_of_mem _ hv)]
      rfl

theorem lines_writeBlock (hwords : AreWords namespaces) {b : Term × List Triple}
    (h : IsWritable b) (rest : List Char) :
    lines ((writeBlock namespaces b).toList ++ rest) =
      (blockLines namespaces b).map String.toList ++ lines rest := by
  obtain ⟨hnode, hsubject⟩ := h.subject
  rw [toList_writeBlock, List.append_assoc, List.cons_append,
    lines_cons (newline_not_mem_writeTerm hwords hsubject)
      (getLast?_writeTerm hwords hnode hsubject),
    lines_writeStatements hwords h.ne_nil h.wellFormed]
  rfl

theorem lines_flatMap_writeBlock (hwords : AreWords namespaces) {bs : List (Term × List Triple)}
    (h : ∀ b ∈ bs, IsWritable b) :
    lines (bs.flatMap fun b => '\n' :: (writeBlock namespaces b).toList) =
      (bs.flatMap fun b => "" :: blockLines namespaces b).map String.toList := by
  induction bs with
  | nil => rfl
  | cons b bs ih =>
    rw [List.flatMap_cons, List.flatMap_cons, List.cons_append, lines_newline,
      lines_writeBlock hwords (h b List.mem_cons_self),
      ih fun c hc => h c (List.mem_cons_of_mem _ hc)]
    simp

/-- The lines of the body are those of the blocks, with an empty line between
    two of them. -/
theorem lines_writeBody (hwords : AreWords namespaces) {bs : List (Term × List Triple)}
    (h : ∀ b ∈ bs, IsWritable b) : lines (writeBody namespaces bs).toList =
      (List.intercalate [""] (bs.map (blockLines namespaces))).map String.toList := by
  cases bs with
  | nil => rfl
  | cons b bs =>
    -- The same with one more empty line in front, on both sides.
    have hlines := lines_flatMap_writeBlock hwords h
    have hblocks : "" :: List.intercalate [""] ((b :: bs).map (blockLines namespaces)) =
        (b :: bs).flatMap fun b => "" :: blockLines namespaces b := by
      have h := append_intercalate [""] (blockLines namespaces b)
        (bs.map (blockLines namespaces))
      rwa [← List.map_cons, List.flatMap_map] at h
    rw [← newline_toList_writeBody_cons, ← hblocks, lines_newline] at hlines
    exact (List.cons.inj hlines).2

end

/-! ## Graphs -/

/-- What is written before the blocks: a line for every namespace, and an empty
    line. -/
def header (namespaces : Dictionary) : String :=
  String.join (namespaces.entries.map writeNamespace) ++
    (if namespaces.entries.map writeNamespace = [] then "" else "\n")

theorem write_eq (g : Graph) :
    write g = header g.namespaces ++ writeBody g.namespaces (blocks (canonical g.triples)) := rfl

theorem isWritable_of_mem_blocks {triples : List Triple} (h : ∀ t ∈ triples, t.WellFormed) :
    ∀ b ∈ blocks (canonical triples), IsWritable b := fun _ hb =>
  { isBlock_of_mem_blocks hb with
    wellFormed := fun t ht => h t (mem_canonical.1 (mem_of_mem_block hb ht)) }

/-- Turtle is a canonical form of the graphs with given short forms. Two graphs
    are written alike if and only if they make the same statements, in whatever
    order and however often. Behind the namespaces the text consists of blocks,
    one for every subject, in which every statement about it has a line. -/
theorem write_eq_write_iff {g h : Graph} (hnamespaces : g.namespaces = h.namespaces)
    (hwords : AreWords g.namespaces) (hg : ∀ t ∈ g.triples, t.WellFormed)
    (hh : ∀ t ∈ h.triples, t.WellFormed) :
    (write g = write h ↔ ∀ t, t ∈ g.triples ↔ t ∈ h.triples) ∧
    ∃ bs, Gathers bs g.triples ∧ ∃ body, write g = header g.namespaces ++ body ∧
      lines body.toList =
        (List.intercalate [""] (bs.map (blockLines g.namespaces))).map String.toList := by
  refine ⟨⟨fun hwritten => canonical_eq_iff.1 ?_, fun hsame => ?_⟩, ?_⟩
  · rw [write_eq, write_eq, ← hnamespaces, String.append_right_inj] at hwritten
    have hblocks := writeBody_inj hwords (isWritable_of_mem_blocks hg)
      (isWritable_of_mem_blocks hh) hwritten
    rw [← flatMap_blocks (canonical g.triples), hblocks, flatMap_blocks]
  · rw [write_eq, write_eq, hnamespaces, canonical_eq_iff.2 hsame]
  · exact ⟨_, gathers_blocks g.triples, _, write_eq g,
      lines_writeBody hwords (isWritable_of_mem_blocks hg)⟩

/-- A statement whose object is quoted and in a language. -/
def quotingTriple : Triple where
  subject := .iri "https://ex.org/p/a"
  predicate := "https://ex.org/says"
  object := .literal "one \"word\"\n" none (some "en")

/-- A statement about a node without an IRI. -/
def linkingTriple : Triple where
  subject := .blank "b0"
  predicate := "https://ex.org/p/of"
  object := .iri "https://ex.org/p/a"

/-- A graph with two namespaces, one within the other. -/
def nestedGraph (triples : List Triple) : Graph :=
  { triples : Graph }.addNamespace "k" "https://ex.org/" |>.addNamespace "kp" "https://ex.org/p/"

theorem areWords_nestedGraph (triples : List Triple) :
    AreWords (nestedGraph triples).namespaces := by
  show ∀ entry ∈ [("k", "https://ex.org/"), ("kp", "https://ex.org/p/")], _
  simp

theorem wellFormed_quotingTriple : quotingTriple.WellFormed := by
  refine ⟨rfl, ?_, ?_, by simp, by simp, .inl rfl⟩
  · simp [quotingTriple, Term.WellFormed]
  · simp [quotingTriple, Term.WellFormed]

theorem wellFormed_linkingTriple : linkingTriple.WellFormed := by
  refine ⟨rfl, ⟨by decide, ?_⟩, ?_, ?_⟩
  · simp [isBlank]
  · simp [linkingTriple, Term.WellFormed]
  · simp [linkingTriple, Term.WellFormed]

/-- A statement that was left out shows in the text, a repeated one does not. -/
theorem write_nestedGraph :
    write (nestedGraph [linkingTriple, quotingTriple, linkingTriple]) =
      write (nestedGraph [quotingTriple, linkingTriple]) ∧
    write (nestedGraph [linkingTriple]) ≠ write (nestedGraph [quotingTriple, linkingTriple]) := by
  have hwellFormed : ∀ ts ⊆ [quotingTriple, linkingTriple],
      ∀ t ∈ (nestedGraph ts).triples, t.WellFormed := by
    intro ts hts t ht
    rcases List.mem_cons.1 (hts ht) with rfl | ht
    · exact wellFormed_quotingTriple
    · rw [List.mem_singleton.1 ht]
      exact wellFormed_linkingTriple
  have hnamespaces (ts us : List Triple) :
      (nestedGraph ts).namespaces = (nestedGraph us).namespaces := rfl
  constructor
  · refine (write_eq_write_iff (hnamespaces _ _) (areWords_nestedGraph _)
      (hwellFormed _ (by decide)) (hwellFormed _ (by decide))).1.2 fun t => ?_
    simp [nestedGraph, Graph.addNamespace, or_comm]
  · intro h
    have hsame := (write_eq_write_iff (hnamespaces _ _) (areWords_nestedGraph _)
      (hwellFormed _ (by decide)) (hwellFormed _ (by decide))).1.1 h
    have hquoting : quotingTriple ∈ [linkingTriple] := (hsame _).2 List.mem_cons_self
    exact absurd hquoting (by decide)

end PaperGraph.Turtle
