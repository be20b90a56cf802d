import PaperGraph.Graph.NTriples
import PaperGraph.Proofs.Cutting
import PaperGraph.Proofs.Steps

/-!
# Writing N-Triples and reading them again

Which graphs come back from their written form: those whose statements are
well-formed, and no others. Every reader is looked at from both sides.

* What was written is read: `readNode_writeTerm`, `readObject_writeTerm`,
  `readLine_body`, `parse_write`.
* What is read can be written: `readNode_wellFormed`, `readObject_wellFormed`,
  `wellFormed_of_parse`. A line has no newline, so none gets into an IRI, and
  an IRI ends at the first `>`.

Both together make reading and writing inverse to each other on the documents
that are accepted (`parse_write_iff_wellFormed`).
-/

namespace PaperGraph.NTriples

open Text

/-! ## What was written is read -/

@[simp]
theorem toList_escape (value : String) :
    (escape value).toList = value.toList.flatMap escapeChar := by
  rw [escape, String.toList_ofList]

theorem readIri_written {iri : String} (h : (Term.iri iri).WellFormed) (rest : List Char) :
    readIri ('<' :: (iri.toList ++ '>' :: rest)) = .ok (iri, rest) := by
  have hclosed : '>' ∉ iri.toList := fun hm => (h _ hm).1 rfl
  simp only [readIri, cutAt?_append hclosed, String.ofList_toList]

/-- A character is read from its escape, whatever follows. -/
theorem readQuoted_escapeChar (c : Char) (rest : List Char) :
    readQuoted (escapeChar c ++ rest) =
      (readQuoted rest).map fun (value, rest) => (c :: value, rest) := by
  unfold escapeChar
  split
  · simp [readQuoted, shortEscape?]
  · simp [readQuoted, shortEscape?]
  · simp [readQuoted, shortEscape?]
  · simp [readQuoted, shortEscape?]
  · simp [readQuoted, shortEscape?]
  · -- Any other character stands for itself, being neither a quotation mark nor
    -- a backslash.
    next hb hq _ _ _ =>
    rw [List.singleton_append, readQuoted]
    · exact hq
    · exact fun h _ => hb h
    · exact fun _ _ h _ => hb h

theorem readQuoted_escaped (value rest : List Char) :
    readQuoted (value.flatMap escapeChar ++ '"' :: rest) = .ok (value, rest) := by
  induction value with
  | nil => simp [readQuoted]
  | cons c value ih =>
    rw [List.flatMap_cons, List.append_assoc, readQuoted_escapeChar, ih]
    rfl

/-- The label of a blank node ends at the blank that is put after it. -/
theorem readNode_blank {label : String} (h : (Term.blank label).WellFormed) (rest : List Char) :
    readNode ('_' :: ':' :: (label.toList ++ ' ' :: rest)) = .ok (.blank label, ' ' :: rest) := by
  have hlabel : ∀ c ∈ label.toList, ! isBlank c := fun c hc => by simpa using h.2 c hc
  have htake : (label.toList ++ ' ' :: rest).takeWhile (! isBlank ·) = label.toList :=
    takeWhile_run hlabel (by decide) rest
  have hdrop : (label.toList ++ ' ' :: rest).dropWhile (! isBlank ·) = ' ' :: rest :=
    dropWhile_run hlabel (by decide) rest
  have hne : label.toList ≠ [] := by
    rw [Ne, String.toList_eq_nil_iff]
    exact h.1
  simp only [readNode, htake, hdrop, if_neg hne, String.ofList_toList]

theorem readNode_writeTerm {t : Term} (hnode : t.isNode) (h : t.WellFormed) (rest : List Char) :
    readNode ((writeTerm t).toList ++ ' ' :: rest) = .ok (t, ' ' :: rest) := by
  cases t with
  | iri iri =>
    have hw : (writeTerm (.iri iri)).toList ++ ' ' :: rest =
        '<' :: (iri.toList ++ '>' :: ' ' :: rest) := by simp [writeTerm]
    rw [hw, readNode, readIri_written h]
    · rfl
    · -- The sign `<` does not start a blank node.
      rintro _ hc
      exact absurd (List.cons.inj hc).1 (by decide)
  | blank label =>
    have hw : (writeTerm (.blank label)).toList ++ ' ' :: rest =
        '_' :: ':' :: (label.toList ++ ' ' :: rest) := by simp [writeTerm]
    rw [hw, readNode_blank h]
  | literal => exact absurd hnode (by simp [Term.isNode])

/-- What is written after the closing quote of a literal. -/
def writeTag (datatype language : Option String) : String :=
  match language, datatype with
  | some tag, _ => "@" ++ tag
  | none, some iri => "^^<" ++ iri ++ ">"
  | none, none => ""

@[simp]
theorem writeTerm_literal (value : String) (datatype language : Option String) :
    writeTerm (.literal value datatype language) =
      "\"" ++ escape value ++ "\"" ++ writeTag datatype language := rfl

theorem readTag_writeTag {value : String} {datatype language : Option String}
    (h : (Term.literal value datatype language).WellFormed) (rest : List Char) :
    readTag ((writeTag datatype language).toList ++ ' ' :: rest) =
      .ok ((datatype, language), ' ' :: rest) := by
  obtain ⟨hiri, htag, hone⟩ := h
  match language, datatype with
  | some tag, some iri =>
    -- The datatype would not be written, and is excluded.
    simp at hone
  | some tag, none =>
    have hall : ∀ c ∈ tag.toList, isTagChar c := fun c hc => by
      simpa [isTagChar] using htag tag rfl c hc
    have hspace : ¬ isTagChar ' ' := by decide
    have hw : (writeTag none (some tag)).toList ++ ' ' :: rest =
        '@' :: (tag.toList ++ ' ' :: rest) := by simp [writeTag]
    rw [hw, readTag, takeWhile_run hall hspace, dropWhile_run hall hspace, String.ofList_toList]
  | none, some iri =>
    have hw : (writeTag (some iri) none).toList ++ ' ' :: rest =
        '^' :: '^' :: '<' :: (iri.toList ++ '>' :: ' ' :: rest) := by simp [writeTag]
    rw [hw, readTag, readIri_written (hiri iri rfl)]
    rfl
  | none, none => simp [writeTag, readTag]

theorem readObject_writeTerm {t : Term} (h : t.WellFormed) (rest : List Char) :
    readObject ((writeTerm t).toList ++ ' ' :: rest) = .ok (t, ' ' :: rest) := by
  cases t with
  | iri iri =>
    rw [readObject, readNode_writeTerm rfl h]
    rintro _ hc
    simp [writeTerm] at hc
  | blank label =>
    rw [readObject, readNode_writeTerm rfl h]
    rintro _ hc
    simp [writeTerm] at hc
  | literal value datatype language =>
    have hw : (writeTerm (.literal value datatype language)).toList ++ ' ' :: rest =
        '"' :: (value.toList.flatMap escapeChar ++
          '"' :: ((writeTag datatype language).toList ++ ' ' :: rest)) := by
      simp
    rw [hw, readObject, readQuoted_escaped]
    simp only [bind, Except.bind, readTag_writeTag h]
    simp [pure, Except.pure]

/-! ### Lines -/

/-- A written statement without its newline. -/
def body (t : Triple) : List Char :=
  (writeTerm t.subject).toList ++ ' ' :: '<' :: (t.predicate.toList ++ '>' :: ' ' ::
    ((writeTerm t.object).toList ++ [' ', '.']))

theorem toList_writeTriple (t : Triple) : (writeTriple t).toList = body t ++ ['\n'] := by
  simp [writeTriple, body]

theorem getLast?_body (t : Triple) : (body t).getLast? = some '.' := by
  have hdot : body t = (writeTerm t.subject).toList ++ ' ' :: '<' :: (t.predicate.toList ++
      '>' :: ' ' :: ((writeTerm t.object).toList ++ [' '])) ++ ['.'] := by simp [body]
  rw [hdot, List.getLast?_concat]

/-- Every sort of term starts with a sign of its own. -/
theorem writeTerm_start (t : Term) :
    ∃ c rest, (writeTerm t).toList = c :: rest ∧ ¬ isBlank c ∧ c ≠ '#' := by
  cases t with
  | iri iri => exact ⟨'<', iri.toList ++ ['>'], by simp [writeTerm], by decide, by decide⟩
  | blank label => exact ⟨'_', ':' :: label.toList, by simp [writeTerm], by decide, by decide⟩
  | literal value datatype language =>
    exact ⟨'"', value.toList.flatMap escapeChar ++ '"' :: (writeTag datatype language).toList,
      by simp, by decide, by decide⟩

theorem trimStart_writeTerm (t : Term) (rest : List Char) :
    trimStart (' ' :: ((writeTerm t).toList ++ rest)) = (writeTerm t).toList ++ rest := by
  obtain ⟨c, more, hw, hc, _⟩ := writeTerm_start t
  rw [trimStart_cons_of_blank (by decide), hw, List.cons_append, trimStart_cons_of_not_blank hc]

theorem readTriple_body {t : Triple} (h : t.WellFormed) : readTriple (body t) = .ok t := by
  obtain ⟨hnode, hs, hp, ho⟩ := h
  -- The steps of the reader one after the other, each with what it leaves.
  have hpredicate : readIri (trimStart (' ' :: '<' :: (t.predicate.toList ++ '>' :: ' ' ::
      ((writeTerm t.object).toList ++ [' ', '.'])))) =
      .ok (t.predicate, ' ' :: ((writeTerm t.object).toList ++ [' ', '.'])) := by
    rw [trimStart_cons_of_blank (by decide), trimStart_cons_of_not_blank (by decide),
      readIri_written hp]
  have hobject : readObject (trimStart (' ' :: ((writeTerm t.object).toList ++ [' ', '.']))) =
      .ok (t.object, [' ', '.']) := by
    rw [trimStart_writeTerm, readObject_writeTerm ho]
  have hdot : trimStart [' ', '.'] = ['.'] := by decide
  have hend : trimStart [] = [] := rfl
  simp only [readTriple, body, bind, Except.bind, readNode_writeTerm hnode hs, hpredicate,
    hobject, hdot, hend]
  simp [pure, Except.pure]

theorem trim_body (t : Triple) : trim (body t) = body t := by
  obtain ⟨c, rest, hw, hc, _⟩ := writeTerm_start t.subject
  apply trim_eq_self
  · rw [body, hw]
    simpa using hc
  · rw [getLast?_body]
    simp [isBlank]

theorem readLine_body {t : Triple} (h : t.WellFormed) : readLine (body t) = .ok (some t) := by
  obtain ⟨c, rest, hw, _, hc⟩ := writeTerm_start t.subject
  have hstart : ¬ (body t = [] ∨ (body t).head? = some '#') := by
    rw [body, hw]
    simpa using hc
  simp only [readLine, trim_body, if_neg hstart, readTriple_body h]
  rfl

theorem newline_not_mem_escapeChar (c : Char) : '\n' ∉ escapeChar c := by
  unfold escapeChar
  split
  · decide
  · decide
  · decide
  · decide
  · decide
  · next hn _ _ =>
    rw [List.mem_singleton]
    exact fun h => hn h.symm

theorem newline_not_mem_writeTag {value : String} {datatype language : Option String}
    (h : (Term.literal value datatype language).WellFormed) :
    '\n' ∉ (writeTag datatype language).toList := by
  obtain ⟨hiri, htag, _⟩ := h
  match language, datatype with
  | some tag, _ =>
    have : '\n' ∉ tag.toList := fun hm => absurd (htag tag rfl _ hm) (by decide)
    simpa [writeTag] using this
  | none, some iri =>
    have : '\n' ∉ iri.toList := fun hm => (hiri iri rfl _ hm).2 rfl
    simpa [writeTag] using this
  | none, none => simp [writeTag]

theorem newline_not_mem_writeTerm {t : Term} (h : t.WellFormed) :
    '\n' ∉ (writeTerm t).toList := by
  cases t with
  | iri iri =>
    have : '\n' ∉ iri.toList := fun hm => (h _ hm).2 rfl
    simpa [writeTerm] using this
  | blank label =>
    have : '\n' ∉ label.toList := fun hm => h.2 _ hm (by decide)
    simpa [writeTerm] using this
  | literal value datatype language =>
    have hvalue : '\n' ∉ value.toList.flatMap escapeChar := by
      rw [List.mem_flatMap]
      exact fun ⟨c, _, hc⟩ => newline_not_mem_escapeChar c hc
    have htag := newline_not_mem_writeTag h
    rw [writeTerm_literal]
    simp only [String.toList_append, toList_escape, List.mem_append, not_or]
    exact ⟨⟨⟨by decide, hvalue⟩, by decide⟩, htag⟩

theorem newline_not_mem_body {t : Triple} (h : t.WellFormed) : '\n' ∉ body t := by
  obtain ⟨_, hs, hp, ho⟩ := h
  have hpredicate : '\n' ∉ t.predicate.toList := fun hm => (hp _ hm).2 rfl
  have hsubject := newline_not_mem_writeTerm hs
  have hobject := newline_not_mem_writeTerm ho
  simp [body, hsubject, hpredicate, hobject]

/-! ### Documents -/

theorem lines_write {ts : List Triple} (h : ∀ t ∈ ts, t.WellFormed) :
    lines (String.join (ts.map writeTriple)).toList = ts.map body := by
  induction ts with
  | nil => rfl
  | cons t ts ih =>
    -- The dot keeps a carriage return in a term from being lost with the newline.
    have hdot : (body t).getLast? ≠ some '\r' := by simp [getLast?_body]
    have hw : (String.join ((t :: ts).map writeTriple)).toList =
        body t ++ '\n' :: (String.join (ts.map writeTriple)).toList := by
      simp [String.toList_join, toList_writeTriple]
    rw [hw, lines_cons (newline_not_mem_body (h t List.mem_cons_self)) hdot,
      ih fun u hu => h u (List.mem_cons_of_mem _ hu), List.map_cons]

theorem readLines_body {ts : List Triple} (h : ∀ t ∈ ts, t.WellFormed) (number : Nat) :
    readLines number (ts.map body) = .ok ts := by
  induction ts generalizing number with
  | nil => rfl
  | cons t ts ih =>
    rw [List.map_cons, readLines, readLine_body (h t List.mem_cons_self)]
    simp only [ih (fun u hu => h u (List.mem_cons_of_mem _ hu))]
    rfl

/-- Well-formed statements come back from their written form. -/
theorem parse_write {g : Graph} (h : ∀ t ∈ g.triples, t.WellFormed) :
    parse (write g) = .ok (.ofTriples g.triples) := by
  rw [parse, write, lines_write h, readLines_body h]
  rfl

/-! ## What is read can be written -/

theorem newline_not_mem_trimStart {cs : List Char} (h : '\n' ∉ cs) : '\n' ∉ trimStart cs :=
  fun hm => h ((List.dropWhile_sublist isBlank).subset hm)

theorem readIri_wellFormed {cs rest : List Char} {iri : String}
    (h : readIri cs = .ok (iri, rest)) (hn : '\n' ∉ cs) :
    (Term.iri iri).WellFormed ∧ '\n' ∉ rest := by
  unfold readIri at h
  split at h
  · next cs =>
    split at h
    · next before after hcut =>
      obtain ⟨rfl, rfl⟩ : String.ofList before = iri ∧ after = rest := by simpa using h
      obtain ⟨rfl, hclosed⟩ := cutAt?_eq_some_iff.1 hcut
      have hn : '\n' ∉ before ∧ '\n' ∉ after := by simpa using hn
      refine ⟨fun c hc => ?_, hn.2⟩
      -- `before` ends at the first `>`, and lies in one line.
      rw [String.toList_ofList] at hc
      exact ⟨fun he => hclosed (he ▸ hc), fun he => hn.1 (he ▸ hc)⟩
    · simp at h
  · simp at h

/-- The label of a blank node goes on to the next blank. -/
theorem readBlank_wellFormed {cs : List Char} (h : cs.takeWhile (! isBlank ·) ≠ []) :
    (Term.blank (String.ofList (cs.takeWhile (! isBlank ·)))).WellFormed := by
  refine ⟨?_, fun c hc => ?_⟩
  · rw [Ne, String.ofList_eq_empty_iff]
    exact h
  · rw [String.toList_ofList] at hc
    have hall : (cs.takeWhile (! isBlank ·)).all (! isBlank ·) := List.all_takeWhile
    simpa using List.all_eq_true.1 hall c hc

theorem readNode_wellFormed {cs rest : List Char} {t : Term} (h : readNode cs = .ok (t, rest))
    (hn : '\n' ∉ cs) : t.isNode ∧ t.WellFormed ∧ '\n' ∉ rest := by
  unfold readNode at h
  split at h
  · next cs =>
    simp only at h
    split at h
    · simp at h
    · next hne =>
      obtain ⟨rfl, rfl⟩ : .blank (String.ofList (cs.takeWhile (! isBlank ·))) = t ∧
        cs.dropWhile (! isBlank ·) = rest := by simpa using h
      refine ⟨rfl, readBlank_wellFormed hne, fun hm => hn ?_⟩
      have := (List.dropWhile_sublist (! isBlank ·)).subset hm
      exact List.mem_cons_of_mem _ (List.mem_cons_of_mem _ this)
  · obtain ⟨⟨iri, after⟩, hi, he⟩ := map_eq_ok_iff.1 h
    obtain ⟨rfl, rfl⟩ : .iri iri = t ∧ after = rest := by simpa using he
    exact ⟨rfl, readIri_wellFormed hi hn⟩

theorem exists_of_map_cons {x : Except Problem (List Char × List Char)} {c : Char}
    {value rest : List Char}
    (h : (x.map fun (value, rest) => (c :: value, rest)) = .ok (value, rest)) :
    ∃ v, x = .ok (v, rest) := by
  obtain ⟨⟨v, r⟩, hx, he⟩ := map_eq_ok_iff.1 h
  obtain ⟨_, rfl⟩ := Prod.mk.inj he
  exact ⟨v, hx⟩

/-- What follows a literal is the end of the text that was read. -/
theorem readQuoted_suffix {cs value rest : List Char} (h : readQuoted cs = .ok (value, rest)) :
    rest <:+ cs := by
  -- Every step of the reader drops some characters from the front.
  fun_induction readQuoted cs generalizing value with
  | case1 => simp at h
  | case2 cs =>
    obtain ⟨_, rfl⟩ : [] = value ∧ cs = rest := by simpa using h
    exact List.suffix_cons _ _
  | case3 => simp at h
  | case4 letter cs =>
    -- An escape by code takes a number of digits after its letter.
    rename_i c _ ih
    obtain ⟨v, hr⟩ := exists_of_map_cons h
    exact (ih hr).trans ((List.drop_suffix _ _).trans
      ((List.suffix_cons _ _).trans (List.suffix_cons _ _)))
  | case5 => simp at h
  | case6 letter cs _ c _ ih =>
    obtain ⟨v, hr⟩ := exists_of_map_cons h
    exact (ih hr).trans ((List.suffix_cons _ _).trans (List.suffix_cons _ _))
  | case7 => simp at h
  | case8 c cs _ _ _ ih =>
    obtain ⟨v, hr⟩ := exists_of_map_cons h
    exact (ih hr).trans (List.suffix_cons _ _)

/-- A literal is given a datatype, a language or neither, but not both. -/
theorem readTag_wellFormed {cs rest : List Char} {datatype language : Option String}
    (h : readTag cs = .ok ((datatype, language), rest)) (hn : '\n' ∉ cs) (value : String) :
    (Term.literal value datatype language).WellFormed := by
  unfold readTag at h
  split at h
  · -- A datatype, read as any IRI is.
    next cs =>
    obtain ⟨⟨iri, after⟩, hi, he⟩ := map_eq_ok_iff.1 h
    obtain ⟨⟨rfl, rfl⟩, rfl⟩ : (some iri = datatype ∧ none = language) ∧ after = rest := by
      simpa using he
    have hiri := (readIri_wellFormed hi (by simpa using hn)).1
    exact ⟨fun i hm => by obtain rfl := Option.some.inj hm; exact hiri, by simp, .inr rfl⟩
  · -- A language, which goes on as long as its characters are fit for one.
    next cs =>
    obtain ⟨⟨rfl, rfl⟩, _⟩ : (none = datatype ∧
      some (String.ofList (cs.takeWhile isTagChar)) = language) ∧
        cs.dropWhile isTagChar = rest := by simpa using h
    refine ⟨by simp, fun tag hm c hc => ?_, .inl rfl⟩
    obtain rfl := Option.some.inj hm
    rw [String.toList_ofList] at hc
    have hall : (cs.takeWhile isTagChar).all isTagChar := List.all_takeWhile
    simpa [isTagChar] using List.all_eq_true.1 hall c hc
  · obtain ⟨⟨rfl, rfl⟩, _⟩ : (none = datatype ∧ none = language) ∧ _ = rest := by simpa using h
    exact ⟨by simp, by simp, .inl rfl⟩

theorem readObject_wellFormed {cs rest : List Char} {t : Term}
    (h : readObject cs = .ok (t, rest)) (hn : '\n' ∉ cs) : t.WellFormed := by
  unfold readObject at h
  split at h
  · obtain ⟨⟨value, cs'⟩, hq, h⟩ := bind_eq_ok_iff.1 h
    obtain ⟨⟨⟨datatype, language⟩, after⟩, ht, h⟩ := bind_eq_ok_iff.1 h
    obtain ⟨rfl, _⟩ : .literal (String.ofList value) datatype language = t ∧ after = rest := by
      simpa [pure, Except.pure] using h
    refine readTag_wellFormed ht (fun hm => hn ?_) _
    exact List.mem_cons_of_mem _ ((readQuoted_suffix hq).subset hm)
  · exact (readNode_wellFormed h hn).2.1

theorem readTriple_wellFormed {cs : List Char} {t : Triple} (h : readTriple cs = .ok t)
    (hn : '\n' ∉ cs) : t.WellFormed := by
  unfold readTriple at h
  obtain ⟨⟨subject, afterSubject⟩, hs, h⟩ := bind_eq_ok_iff.1 h
  obtain ⟨⟨predicate, afterPredicate⟩, hp, h⟩ := bind_eq_ok_iff.1 h
  obtain ⟨⟨object, afterObject⟩, ho, h⟩ := bind_eq_ok_iff.1 h
  have ht : { subject, predicate, object } = t := by
    simp only at h
    split at h
    · split at h
      · simpa [pure, Except.pure] using h
      · simp [throw, throwThe, MonadExceptOf.throw] at h
    · simp [throw, throwThe, MonadExceptOf.throw] at h
  subst ht
  obtain ⟨hnode, hsubject, hn⟩ := readNode_wellFormed hs hn
  obtain ⟨hpredicate, hn⟩ := readIri_wellFormed hp (newline_not_mem_trimStart hn)
  exact ⟨hnode, hsubject, hpredicate,
    readObject_wellFormed ho (newline_not_mem_trimStart hn)⟩

theorem readLine_wellFormed {line : List Char} {t : Triple} (h : readLine line = .ok (some t))
    (hn : '\n' ∉ line) : t.WellFormed := by
  simp only [readLine] at h
  split at h
  · simp at h
  · obtain ⟨u, hu, he⟩ := map_eq_ok_iff.1 h
    obtain rfl := Option.some.inj he
    exact readTriple_wellFormed hu fun hm => hn (mem_of_mem_trim hm)

/-- Every statement that is read stands on one of the lines. -/
theorem exists_line_of_mem_readLines {ls : List (List Char)} {number : Nat} {ts : List Triple}
    (h : readLines number ls = .ok ts) {t : Triple} (ht : t ∈ ts) :
    ∃ line ∈ ls, readLine line = .ok (some t) := by
  induction ls generalizing number ts with
  | nil =>
    obtain rfl : [] = ts := by simpa [readLines] using h
    exact absurd ht List.not_mem_nil
  | cons line ls ih =>
    rw [readLines] at h
    split at h
    · simp at h
    · obtain ⟨l, hl, hr⟩ := ih h ht
      exact ⟨l, List.mem_cons_of_mem _ hl, hr⟩
    · next u hu =>
      obtain ⟨us, hus, rfl⟩ := map_eq_ok_iff.1 h
      rcases List.mem_cons.1 ht with rfl | ht
      · exact ⟨line, List.mem_cons_self, hu⟩
      · obtain ⟨l, hl, hr⟩ := ih hus ht
        exact ⟨l, List.mem_cons_of_mem _ hl, hr⟩

/-- Whatever is read from a document is well-formed. -/
theorem wellFormed_of_parse {document : String} {g : Graph} (h : parse document = .ok g) :
    ∀ t ∈ g.triples, t.WellFormed := by
  obtain ⟨ts, hts, rfl⟩ := map_eq_ok_iff.1 h
  intro t ht
  obtain ⟨line, hline, hread⟩ := exists_line_of_mem_readLines hts ht
  exact readLine_wellFormed hread (newline_not_mem_of_mem_lines hline)

/-! ## Both together -/

/-- Reading and writing are inverse to each other exactly on the graphs of
    well-formed statements. Documents hold no other statements, so that an
    accepted document and what is written of it say the same. -/
theorem parse_write_iff_wellFormed :
    (∀ (document : String) (g : Graph), parse document = .ok g →
      (∀ t ∈ g.triples, t.WellFormed) ∧ parse (write g) = .ok g) ∧
    ∀ g : Graph, (∃ g', parse (write g) = .ok g' ∧ g'.triples = g.triples) ↔
      ∀ t ∈ g.triples, t.WellFormed := by
  refine ⟨fun document g h => ?_, fun g => ⟨?_, fun h => ⟨_, parse_write h, rfl⟩⟩⟩
  · have hg := wellFormed_of_parse h
    obtain ⟨ts, _, rfl⟩ := map_eq_ok_iff.1 h
    exact ⟨hg, parse_write hg⟩
  · rintro ⟨g', h, he⟩
    rw [← he]
    exact wellFormed_of_parse h

/-- A document with a comment, escapes, a language and a carriage return. -/
def sampleDocument : String := "# a note\n_:b0 <p> \"say \\\"hi\\\"\\n\"@en-GB .\r\n"

/-- What `sampleDocument` says. -/
def sampleTriple : Triple where
  subject := .blank "b0"
  predicate := "p"
  object := .literal "say \"hi\"\n" none (some "en-GB")

/-- A graph whose blank node has a label in two words. -/
def wordyGraph : Graph := .ofTriples
  [{ subject := .blank "b 0", predicate := "p", object := .plain "" }]

theorem parse_write_samples :
    (∃ g, parse sampleDocument = .ok g ∧ g.triples = [sampleTriple] ∧
      sampleTriple.WellFormed ∧ parse (write g) = .ok g) ∧
    ¬ ∃ g', parse (write wordyGraph) = .ok g' ∧ g'.triples = wordyGraph.triples := by
  constructor
  · have hread : (parse sampleDocument).toOption.map (·.triples) = some [sampleTriple] := by
      decide +kernel
    obtain ⟨g, hg, htriples⟩ := Option.map_eq_some_iff.1 hread
    rw [toOption_eq_some_iff] at hg
    obtain ⟨hwellFormed, hwritten⟩ := parse_write_iff_wellFormed.1 _ _ hg
    exact ⟨g, hg, htriples, hwellFormed _ (by rw [htriples]; exact List.mem_cons_self), hwritten⟩
  · rw [parse_write_iff_wellFormed.2]
    intro hall
    obtain ⟨_, ⟨_, hlabel⟩, _⟩ := hall _ List.mem_cons_self
    exact hlabel ' ' (by decide) (by decide)

end PaperGraph.NTriples
