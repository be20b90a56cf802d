import PaperGraph.Text.Blank
import PaperGraph.Text.Lines

/-!
# Laws of cutting

What is left of a text that was cut at a separator, at its line ends or at its
blanks, and which texts a cut leaves as they are.

* `cutAt?_eq_some_iff`: the parts of a text around its first separator;
* `splitAt_append`, `splitAt_intercalate`: the parts between all separators;
* `lines_cons`: the first line of a text, and its other lines;
* `newline_not_mem_of_mem_lines`: a line has no newline in it;
* `exists_first_line`, `exists_line_of_occurrence`: the line in which a text stands;
* `find?_eq_some_iff`: where a search stops;
* `trim_eq_self`: a text without blanks at its ends stays as it is;
* `trim_surrounded`, `exists_surrounded`: the blanks that are taken away from any other.
-/

namespace PaperGraph.Text

/-! ## Separators -/

theorem cutAt?_append {separator : Char} {before : List Char} (h : separator ∉ before)
    (after : List Char) :
    cutAt? separator (before ++ separator :: after) = some (before, after) := by
  induction before with
  | nil => simp [cutAt?]
  | cons c before ih =>
    rw [List.mem_cons, not_or] at h
    rw [List.cons_append, cutAt?, if_neg (Ne.symm h.1), ih h.2]
    rfl

/-- A text is cut at the first separator and nowhere else. -/
theorem cutAt?_eq_some_iff {separator : Char} {text before after : List Char} :
    cutAt? separator text = some (before, after) ↔
      text = before ++ separator :: after ∧ separator ∉ before := by
  constructor
  · intro h
    induction text generalizing before with
    | nil => simp [cutAt?] at h
    | cons c text ih =>
      rw [cutAt?] at h
      split at h
      · next hc =>
        obtain ⟨rfl, rfl⟩ : [] = before ∧ text = after := by simpa using h
        exact ⟨by rw [hc]; rfl, List.not_mem_nil⟩
      · -- The first character is not the separator, so it stands before the cut.
        next hc =>
        obtain ⟨⟨b, a⟩, hb, he⟩ := Option.map_eq_some_iff.1 h
        obtain ⟨rfl, rfl⟩ : c :: b = before ∧ a = after := by simpa using he
        obtain ⟨rfl, hs⟩ := ih hb
        exact ⟨rfl, by rw [List.mem_cons, not_or]; exact ⟨Ne.symm hc, hs⟩⟩
  · rintro ⟨rfl, h⟩
    exact cutAt?_append h after

/-- The cut at all separators is that of lists. -/
theorem splitAt_eq_splitOn (separator : Char) (text : List Char) :
    splitAt separator text = text.splitOn separator := by
  induction text with
  | nil => rfl
  | cons c text ih =>
    rw [splitAt, ih]
    simp only [List.splitOn, List.splitOnP_cons_eq_if_modifyHead, beq_iff_eq]
    split
    · rfl
    · split
      · next hnone => simp at hnone
      · next hparts => simp [hparts]

theorem splitAt_ne_nil (separator : Char) (text : List Char) : splitAt separator text ≠ [] := by
  rw [splitAt_eq_splitOn]
  exact List.splitOnP_ne_nil _ _

/-- The parts with the separators between them are the text. -/
@[simp]
theorem intercalate_splitAt (separator : Char) (text : List Char) :
    List.intercalate [separator] (splitAt separator text) = text := by
  rw [splitAt_eq_splitOn]
  exact List.intercalate_splitOn separator

/-- A text is its first part, or goes on with a separator after it. -/
theorem eq_or_append_of_splitAt {separator : Char} {text first : List Char}
    {rest : List (List Char)} (h : splitAt separator text = first :: rest) :
    text = first ∨ ∃ more, text = first ++ separator :: more := by
  have hjoin := intercalate_splitAt separator text
  rw [h] at hjoin
  cases rest with
  | nil => exact .inl (by rw [← hjoin, List.intercalate_singleton])
  | cons next rest =>
    rw [List.intercalate_cons_cons, List.append_assoc, List.singleton_append] at hjoin
    exact .inr ⟨_, hjoin.symm⟩

/-- There is no separator in a part. -/
theorem separator_not_mem {separator : Char} {text part : List Char}
    (h : part ∈ splitAt separator text) : separator ∉ part := by
  induction text generalizing part with
  | nil => simp_all [splitAt]
  | cons c text ih =>
    rw [splitAt] at h
    split at h
    · rcases List.mem_cons.1 h with rfl | h
      · exact List.not_mem_nil
      · exact ih h
    · next hc =>
      split at h
      · obtain rfl := List.mem_singleton.1 h
        simpa using Ne.symm hc
      · next first others hparts =>
        rcases List.mem_cons.1 h with rfl | h
        · rw [List.mem_cons, not_or]
          exact ⟨Ne.symm hc, ih (by rw [hparts]; exact List.mem_cons_self)⟩
        · exact ih (by rw [hparts]; exact List.mem_cons_of_mem _ h)

theorem cutAt?_eq_none_iff {separator : Char} {text : List Char} :
    cutAt? separator text = none ↔ separator ∉ text := by
  induction text with
  | nil => simp [cutAt?]
  | cons c text ih =>
    rw [cutAt?, List.mem_cons, not_or]
    split
    · next hc => simp [hc]
    · next hc => rw [Option.map_eq_none_iff, ih, and_iff_right (Ne.symm hc)]

theorem splitAt_append (separator : Char) (before after : List Char) :
    splitAt separator (before ++ separator :: after) =
      splitAt separator before ++ splitAt separator after := by
  simp only [splitAt_eq_splitOn, List.splitOn]
  exact List.splitOnP_append_cons _ _ (beq_self_eq_true separator)

theorem splitAt_intercalate {separator : Char} {parts : List (List Char)} (hne : parts ≠ [])
    (h : ∀ part ∈ parts, separator ∉ part) :
    splitAt separator (List.intercalate [separator] parts) = parts := by
  rw [splitAt_eq_splitOn, List.splitOn_intercalate separator h hne]

theorem splitAt_eq_singleton {separator : Char} {text : List Char} (h : separator ∉ text) :
    splitAt separator text = [text] := by
  simpa using splitAt_intercalate (List.cons_ne_nil text []) (by simpa using h)

/-- With one more separator in front there is one before every part. -/
theorem append_intercalate {α : Type} (separator part : List α) (parts : List (List α)) :
    separator ++ List.intercalate separator (part :: parts) =
      (part :: parts).flatMap (separator ++ ·) := by
  induction parts generalizing part with
  | nil => rw [List.intercalate_singleton, List.flatMap_singleton]
  | cons next parts ih =>
    rw [List.intercalate_cons_cons, List.flatMap_cons, ← ih, List.append_assoc, List.append_assoc]

/-! ## Runs of characters -/

theorem takeWhile_run {p : Char → Bool} {run : List Char} (h : ∀ c ∈ run, p c) {stop : Char}
    (hstop : ¬ p stop) (rest : List Char) : (run ++ stop :: rest).takeWhile p = run := by
  rw [List.takeWhile_append_of_pos h, List.takeWhile_cons_of_neg hstop, List.append_nil]

theorem dropWhile_run {p : Char → Bool} {run : List Char} (h : ∀ c ∈ run, p c) {stop : Char}
    (hstop : ¬ p stop) (rest : List Char) :
    (run ++ stop :: rest).dropWhile p = stop :: rest := by
  rw [List.dropWhile_append_of_pos h, List.dropWhile_cons_of_neg hstop]

/-- A text starts with one run only that is followed by a stop. -/
theorem run_append_inj {p : Char → Bool} {run run' : List Char} (h : ∀ c ∈ run, p c)
    (h' : ∀ c ∈ run', p c) {stop stop' : Char} (hstop : ¬ p stop) (hstop' : ¬ p stop')
    {rest rest' : List Char} (he : run ++ stop :: rest = run' ++ stop' :: rest') :
    run = run' ∧ stop = stop' ∧ rest = rest' := by
  have htake := congrArg (List.takeWhile p) he
  have hdrop := congrArg (List.dropWhile p) he
  rw [takeWhile_run h hstop, takeWhile_run h' hstop'] at htake
  rw [dropWhile_run h hstop, dropWhile_run h' hstop'] at hdrop
  exact ⟨htake, List.cons.inj hdrop⟩

/-! ## Lines -/

theorem inclusiveLines_cons {line : List Char} (h : '\n' ∉ line) (rest : List Char) :
    inclusiveLines (line ++ '\n' :: rest) = (line ++ ['\n']) :: inclusiveLines rest := by
  induction line with
  | nil => simp [inclusiveLines]
  | cons c line ih =>
    rw [List.mem_cons, not_or] at h
    rw [List.cons_append, inclusiveLines, if_neg (Ne.symm h.1), ih h.2]
    rfl

/-- A newline closes the line it stands in: only at the end of a line is one. -/
theorem mem_inclusiveLines {line text : List Char} (h : line ∈ inclusiveLines text) :
    '\n' ∉ line ∨ ∃ start, line = start ++ ['\n'] ∧ '\n' ∉ start := by
  induction text generalizing line with
  | nil => simp [inclusiveLines] at h
  | cons c text ih =>
    rw [inclusiveLines] at h
    split at h
    · next hc =>
      rcases List.mem_cons.1 h with rfl | h
      · exact .inr ⟨[], by rw [hc]; rfl, List.not_mem_nil⟩
      · exact ih h
    · -- Any other character goes to the front of the first line of the rest.
      next hc =>
      split at h
      · rw [List.mem_singleton] at h
        exact .inl (by simpa [h] using Ne.symm hc)
      · next first others he =>
        rcases List.mem_cons.1 h with rfl | h
        · have hfirst : first ∈ inclusiveLines text := by rw [he]; exact List.mem_cons_self
          rcases ih hfirst with hn | ⟨s, rfl, hs⟩
          · exact .inl (by simpa using ⟨Ne.symm hc, hn⟩)
          · exact .inr ⟨c :: s, rfl, by simpa using ⟨Ne.symm hc, hs⟩⟩
        · exact ih (by rw [he]; exact List.mem_cons_of_mem _ h)

/-- A newline in a line stands at its end. -/
theorem newline_not_mem_dropLast {line text : List Char} (h : line ∈ inclusiveLines text) :
    '\n' ∉ line.dropLast := by
  rcases mem_inclusiveLines h with hn | ⟨start, rfl, hn⟩
  · exact fun hm => hn ((List.dropLast_sublist line).subset hm)
  · rwa [List.dropLast_concat]

/-- What has no newline but at its end stands in the first line. -/
theorem exists_first_line {start : List Char} (hne : start ≠ []) (h : '\n' ∉ start.dropLast)
    (rest : List Char) : ∃ line others,
      inclusiveLines (start ++ rest) = line :: others ∧ start <+: line := by
  induction start with
  | nil => exact absurd rfl hne
  | cons c start ih =>
    by_cases hstart : start = []
    · subst hstart
      rw [List.singleton_append, inclusiveLines]
      split
      · exact ⟨_, _, rfl, List.prefix_rfl⟩
      · split
        · exact ⟨_, _, rfl, List.prefix_rfl⟩
        · exact ⟨_, _, rfl, List.prefix_append [c] _⟩
    · rw [List.dropLast_cons_of_ne_nil hstart, List.mem_cons, not_or] at h
      obtain ⟨line, others, hlines, hfirst⟩ := ih hstart h.2
      rw [List.cons_append, inclusiveLines, if_neg (Ne.symm h.1), hlines]
      exact ⟨_, _, rfl, List.cons_prefix_cons.2 ⟨rfl, hfirst⟩⟩

/-- A newline cuts a text in two, whose lines are those of the text. -/
theorem inclusiveLines_append_newline (start rest : List Char) :
    inclusiveLines (start ++ '\n' :: rest) =
      inclusiveLines (start ++ ['\n']) ++ inclusiveLines rest := by
  induction start with
  | nil => simp [inclusiveLines]
  | cons c start ih =>
    rw [List.cons_append, List.cons_append, inclusiveLines, inclusiveLines, ih]
    split
    · rfl
    · cases hlines : inclusiveLines (start ++ ['\n']) with
      | nil =>
        -- The newline makes a line.
        have hflat := inclusiveLines_flatten (start ++ ['\n'])
        simp [hlines] at hflat
      | cons line others => rfl

/-- The lines of two texts in a row are those of the one and those of the other
    if no line goes on from the one to the other. -/
theorem inclusiveLines_append {start : List Char}
    (h : start = [] ∨ ∃ body, start = body ++ ['\n']) (rest : List Char) :
    inclusiveLines (start ++ rest) = inclusiveLines start ++ inclusiveLines rest := by
  rcases h with rfl | ⟨body, rfl⟩
  · rfl
  · rw [List.append_assoc, List.singleton_append, inclusiveLines_append_newline]

/-- What stands in a text without a newline in it stands in one of its lines. -/
theorem exists_line_of_occurrence {needle text : List Char} (hne : needle ≠ []) (h : '\n' ∉ needle)
    (hoccurs : needle <:+: text) : ∃ line ∈ inclusiveLines text, needle <:+: line := by
  obtain ⟨start, rest, rfl⟩ := hoccurs
  rw [List.append_assoc]
  induction start with
  | nil =>
    obtain ⟨line, others, hlines, hfirst⟩ :=
      exists_first_line hne (fun hm => h ((List.dropLast_sublist needle).subset hm)) rest
    rw [List.nil_append, hlines]
    exact ⟨line, List.mem_cons_self, hfirst.isInfix⟩
  | cons c start ih =>
    obtain ⟨line, hline, hoccurs⟩ := ih
    rw [List.cons_append, inclusiveLines]
    split
    · exact ⟨line, List.mem_cons_of_mem _ hline, hoccurs⟩
    · -- The character goes to the front of the first line.
      split
      · next hnone => simp [hnone] at hline
      · next first others hlines =>
        rw [hlines, List.mem_cons] at hline
        rcases hline with rfl | hline
        · exact ⟨_, List.mem_cons_self, List.infix_cons hoccurs⟩
        · exact ⟨line, List.mem_cons_of_mem _ hline, hoccurs⟩

@[simp]
theorem stripStart?_append (start rest : List Char) :
    stripStart? start (start ++ rest) = some rest := by
  induction start with
  | nil => rfl
  | cons c start ih => rw [List.cons_append, stripStart?, if_pos rfl, ih]

/-- What follows the start of a text, joined to that start, is the text. -/
theorem append_of_stripStart? {start text after : List Char}
    (h : stripStart? start text = some after) : text = start ++ after := by
  induction start generalizing text with
  | nil => simpa [stripStart?] using h
  | cons s start ih =>
    cases text with
    | nil => simp [stripStart?] at h
    | cons c text =>
      rw [stripStart?] at h
      split at h
      · next hc => rw [hc, ih h, List.cons_append]
      · simp at h

@[simp]
theorem stripEnd?_append (text tail : List Char) : stripEnd? tail (text ++ tail) = some text := by
  rw [stripEnd?, List.reverse_append, stripStart?_append, Option.map_some, List.reverse_reverse]

/-- What stands before the end of a text, joined to that end, is the text. -/
theorem append_of_stripEnd? {tail text before : List Char}
    (h : stripEnd? tail text = some before) : text = before ++ tail := by
  obtain ⟨r, hr, rfl⟩ := Option.map_eq_some_iff.1 h
  have := congrArg List.reverse (append_of_stripStart? hr)
  simpa using this

theorem stripEnd?_isSome_iff {tail text : List Char} :
    (stripEnd? tail text).isSome ↔ ∃ before, text = before ++ tail := by
  rw [Option.isSome_iff_exists]
  constructor
  · rintro ⟨before, h⟩
    exact ⟨before, append_of_stripEnd? h⟩
  · rintro ⟨before, rfl⟩
    exact ⟨before, stripEnd?_append before tail⟩

/-- A line is left when its newline goes, unless a carriage return goes with it. -/
theorem stripLineEnding_newline {line : List Char} (h : line.getLast? ≠ some '\r') :
    stripLineEnding (line ++ ['\n']) = line := by
  have hcr : ¬ (stripEnd? ['\r', '\n'] (line ++ ['\n'])).isSome := by
    rw [stripEnd?_isSome_iff]
    rintro ⟨before, hb⟩
    have hline : line = before ++ ['\r'] := by
      refine List.append_cancel_right (?_ : line ++ ['\n'] = before ++ ['\r'] ++ ['\n'])
      rw [hb, List.append_assoc, List.singleton_append]
    exact h (by rw [hline, List.getLast?_concat])
  have hnl : (stripEnd? ['\n'] (line ++ ['\n'])).isSome := by simp
  simp only [stripLineEnding, lineEnding, if_neg hcr, if_pos hnl]
  simp

/-- The first line of a text, and its other lines. -/
theorem lines_cons {line : List Char} (h : '\n' ∉ line) (hcr : line.getLast? ≠ some '\r')
    (rest : List Char) : lines (line ++ '\n' :: rest) = line :: lines rest := by
  rw [lines, inclusiveLines_cons h, List.map_cons, stripLineEnding_newline hcr, lines]

theorem toList_endsLine {start : String} (h : start = "" ∨ ∃ body, start = body ++ "\n") :
    start.toList = [] ∨ ∃ body, start.toList = body ++ ['\n'] := by
  rcases h with rfl | ⟨body, rfl⟩
  · exact .inl rfl
  · exact .inr ⟨body.toList, String.toList_append⟩

theorem lines_append {start : List Char} (h : start = [] ∨ ∃ body, start = body ++ ['\n'])
    (rest : List Char) : lines (start ++ rest) = lines start ++ lines rest := by
  rw [lines, inclusiveLines_append h, List.map_append, lines, lines]

theorem lines_newline (rest : List Char) : lines ('\n' :: rest) = [] :: lines rest :=
  lines_cons List.not_mem_nil (by simp) rest

theorem newline_not_mem_of_mem_lines {line text : List Char} (h : line ∈ lines text) :
    '\n' ∉ line := by
  obtain ⟨whole, hw, rfl⟩ := List.mem_map.1 h
  rcases mem_inclusiveLines hw with hn | ⟨start, rfl, hs⟩
  · exact fun hm => hn (List.mem_of_mem_take hm)
  · -- The newline at the end belongs to the ending, so that only `start` is left.
    have hlen : 1 ≤ (lineEnding (start ++ ['\n'])).length := by
      have : (stripEnd? ['\n'] (start ++ ['\n'])).isSome := by simp
      simp only [lineEnding, this, if_true]
      split <;> simp
    have hpre : stripLineEnding (start ++ ['\n']) =
        start.take (start.length + 1 - (lineEnding (start ++ ['\n'])).length) := by
      rw [stripLineEnding, List.length_append, List.length_singleton, List.take_append_of_le_length]
      omega
    rw [hpre]
    exact fun hm => hs (List.mem_of_mem_take hm)

/-! ## Searches -/

theorem occursIn_iff {needle text : List Char} : occursIn needle text ↔ needle <:+: text := by
  rw [occursIn]
  induction text with
  | nil =>
    rw [find?]
    split
    · next h => simp [h]
    · next h => simpa using h
  | cons c text ih =>
    rw [find?, List.infix_cons_iff, ← List.isPrefixOf_iff_prefix]
    split
    · next h => simp [h]
    · next h => rw [Option.isSome_map, ih, or_iff_right h]

/-- A needle that has `c` at most at its start does not reach into a text that starts
    with `c`. -/
theorem infix_append_of_head? {needle before after : List Char} {c : Char}
    (hneedle : c ∉ needle.tail) (hafter : after.head? = some c)
    (h : needle <:+: before ++ after) : needle <:+: before ∨ needle <:+: after := by
  rcases List.infix_append_iff_ne_nil.1 h with h | h | ⟨front, back, hfront, hback, rfl, -, hback'⟩
  · exact .inl h
  · exact .inr h
  · obtain ⟨rest, rfl⟩ := hback'
    obtain ⟨d, back, rfl⟩ := List.exists_cons_of_ne_nil hback
    obtain rfl : d = c := Option.some.inj hafter
    rw [List.tail_append_of_ne_nil hfront] at hneedle
    exact absurd (List.mem_append_right _ List.mem_cons_self) hneedle

/-- A needle that has `c` at most at its end does not reach out of a text that ends
    with `c`. -/
theorem infix_append_of_getLast? {needle before after : List Char} {c : Char}
    (hneedle : c ∉ needle.dropLast) (hbefore : before.getLast? = some c)
    (h : needle <:+: before ++ after) : needle <:+: before ∨ needle <:+: after := by
  rcases List.infix_append_iff_ne_nil.1 h with h | h | ⟨front, back, hfront, hback, rfl, hfront', -⟩
  · exact .inl h
  · exact .inr h
  · obtain ⟨rest, rfl⟩ := hfront'
    obtain ⟨front, d, rfl⟩ := (List.eq_nil_or_concat front).resolve_left hfront
    obtain rfl : d = c := by simpa using hbefore
    rw [List.dropLast_append_of_ne_nil hback] at hneedle
    exact absurd (List.mem_append_left _ (by simp)) hneedle

/-- The needle occurs where the two parts of a text meet, and nowhere before. -/
structure IsFirst (needle before rest : List Char) : Prop where
  starts : needle <+: rest
  first : ∀ b r, b ++ r = before ++ rest → needle <+: r → before.length ≤ b.length

theorem isFirst_nil {needle rest : List Char} (h : needle <+: rest) : IsFirst needle [] rest :=
  ⟨h, fun _ _ _ _ => Nat.zero_le _⟩

/-- A character before a text does not matter if the needle does not occur there. -/
theorem isFirst_cons_iff {needle before rest : List Char} {c : Char}
    (h : ¬ needle <+: c :: (before ++ rest)) :
    IsFirst needle (c :: before) rest ↔ IsFirst needle before rest := by
  constructor
  · intro hfirst
    refine ⟨hfirst.starts, fun b r heq hr => ?_⟩
    have hle := hfirst.first (c :: b) r (congrArg (c :: ·) heq) hr
    exact Nat.le_of_succ_le_succ hle
  · intro hfirst
    refine ⟨hfirst.starts, fun b r heq hr => ?_⟩
    cases b with
    | nil =>
      obtain rfl : r = c :: (before ++ rest) := heq
      exact absurd hr h
    | cons d b => exact Nat.succ_le_succ (hfirst.first b r (List.cons.inj heq).2 hr)

/-- A search finds the first place where the needle occurs. -/
theorem find?_eq_some_iff {needle text before rest : List Char} :
    find? needle text = some (before, rest) ↔
      text = before ++ rest ∧ IsFirst needle before rest := by
  induction text generalizing before with
  | nil =>
    rw [find?, Option.ite_none_right_eq_some]
    constructor
    · rintro ⟨rfl, h⟩
      obtain ⟨rfl, rfl⟩ := Prod.mk.inj (Option.some.inj h)
      exact ⟨rfl, isFirst_nil List.nil_prefix⟩
    · rintro ⟨htext, hfirst⟩
      obtain ⟨rfl, rfl⟩ := List.append_eq_nil_iff.1 htext.symm
      exact ⟨List.prefix_nil.1 hfirst.starts, rfl⟩
  | cons c text ih =>
    rw [find?]
    by_cases hstart : needle <+: c :: text
    · rw [if_pos (List.isPrefixOf_iff_prefix.2 hstart)]
      constructor
      · intro h
        obtain ⟨rfl, rfl⟩ := Prod.mk.inj (Option.some.inj h)
        exact ⟨rfl, isFirst_nil hstart⟩
      · rintro ⟨htext, hfirst⟩
        -- The needle stands at the start already, so nothing is before it.
        have hle := hfirst.first [] (c :: text) htext hstart
        obtain rfl := List.eq_nil_of_length_eq_zero (Nat.le_zero.1 hle)
        rw [htext, List.nil_append]
    · rw [if_neg (fun h => hstart (List.isPrefixOf_iff_prefix.1 h)), Option.map_eq_some_iff]
      constructor
      · rintro ⟨⟨b, r⟩, hb, he⟩
        obtain ⟨rfl, rfl⟩ := Prod.mk.inj he
        obtain ⟨rfl, hfirst⟩ := ih.1 hb
        exact ⟨rfl, (isFirst_cons_iff hstart).2 hfirst⟩
      · rintro ⟨htext, hfirst⟩
        cases before with
        | nil => exact absurd (htext ▸ hfirst.starts) hstart
        | cons d before =>
          obtain ⟨rfl, rfl⟩ := List.cons.inj htext
          exact ⟨(before, rest), ih.2 ⟨rfl, (isFirst_cons_iff hstart).1 hfirst⟩, rfl⟩

theorem find?_eq_none_iff {needle text : List Char} :
    find? needle text = none ↔ ¬ needle <:+: text := by
  rw [← occursIn_iff, occursIn, Option.not_isSome_iff_eq_none]

/-- Replacing brings in nothing but what is put in. -/
theorem mem_of_mem_replaceAll {needle replacement text : List Char} {c : Char}
    (h : c ∈ replaceAll needle replacement text) : c ∈ replacement ∨ c ∈ text := by
  fun_induction replaceAll needle replacement text with
  | case1 => exact .inr h
  | case2 d rest after hs hn => exact .inr h
  | case3 d rest after hs hn ih =>
    -- What is left out is a start of the text.
    rw [append_of_stripStart? hs]
    rcases List.mem_append.1 h with h | h
    · exact .inl h
    · exact (ih h).imp_right (List.mem_append_right _)
  | case4 d rest hs ih =>
    rcases List.mem_cons.1 h with rfl | h
    · exact .inr List.mem_cons_self
    · exact (ih h).imp_right (List.mem_cons_of_mem d)

/-! ## Blanks -/

theorem mem_of_mem_trim {c : Char} {text : List Char} (h : c ∈ trim text) : c ∈ text := by
  rw [trim, trimEnd, List.mem_reverse] at h
  have h := List.mem_reverse.1 ((List.dropWhile_sublist isBlank).subset h)
  exact (List.dropWhile_sublist isBlank).subset h

/-- Trimming does not take away the first character that is not blank. -/
theorem head?_trim (cs : List Char) : (trim cs).head? = (trimStart cs).head? := by
  rw [trim, trimEnd, List.head?_reverse]
  cases hstart : trimStart cs with
  | nil => rfl
  | cons c rest =>
    have hc : ¬ isBlank c := by
      have := List.head?_dropWhile_not isBlank cs
      rw [trimStart] at hstart
      simpa [hstart] using this
    rw [List.reverse_cons, List.dropWhile_append, List.dropWhile_cons_of_neg hc]
    split
    · rfl
    · simp

/-- A text without blanks at its ends stays as it is. -/
theorem trim_eq_self {text : List Char} (hfirst : ∀ c ∈ text.head?, ¬ isBlank c)
    (hlast : ∀ c ∈ text.getLast?, ¬ isBlank c) : trim text = text := by
  have hstart : trimStart text = text := by
    cases text with
    | nil => rfl
    | cons c text => exact trimStart_cons_of_not_blank (hfirst c rfl)
  rw [trim, hstart, trimEnd]
  cases hr : text.reverse with
  | nil => rw [List.reverse_eq_nil_iff.1 hr]; rfl
  | cons c rest =>
    have hc : ¬ isBlank c := hlast c (by rw [← List.head?_reverse, hr]; rfl)
    rw [List.dropWhile_cons_of_neg hc, ← hr, List.reverse_reverse]

/-- A text without blanks at its ends. -/
structure IsTrimmed (text : List Char) : Prop where
  /-- It does not start with one. -/
  first : ∀ c ∈ text.head?, ¬ isBlank c
  /-- It does not end with one. -/
  last : ∀ c ∈ text.getLast?, ¬ isBlank c

theorem isTrimmed_trim (text : List Char) : IsTrimmed (trim text) where
  first c hc := by
    have hfirst := List.head?_dropWhile_not isBlank text
    rw [head?_trim, trimStart] at hc
    rw [Option.mem_def.1 hc] at hfirst
    simpa using hfirst
  last c hc := by
    have hlast := List.head?_dropWhile_not isBlank (trimStart text).reverse
    rw [trim, trimEnd, List.getLast?_reverse] at hc
    rw [Option.mem_def.1 hc] at hlast
    simpa using hlast

theorem trimEnd_append_blanks {trail : List Char} (h : ∀ c ∈ trail, isBlank c) (text : List Char) :
    trimEnd (text ++ trail) = trimEnd text := by
  have htrail : ∀ c ∈ trail.reverse, isBlank c := fun c hc => h c (List.mem_reverse.1 hc)
  rw [trimEnd, List.reverse_append, List.dropWhile_append_of_pos htrail, trimEnd]

/-- Blanks around a text are taken away with those at its ends. -/
theorem trim_surrounded {lead trail : List Char} (hlead : ∀ c ∈ lead, isBlank c)
    (htrail : ∀ c ∈ trail, isBlank c) (text : List Char) :
    trim (lead ++ text ++ trail) = trim text := by
  rw [trim, trimStart, List.append_assoc, List.dropWhile_append_of_pos hlead,
    List.dropWhile_append]
  split
  · next hnone =>
    -- There is nothing but blanks.
    have hnil : trimStart text = [] := List.isEmpty_iff.1 hnone
    have htrail' : trail.dropWhile isBlank = [] := by
      rw [← List.append_nil trail, List.dropWhile_append_of_pos htrail, List.dropWhile_nil]
    rw [htrail', trim, hnil]
  · rw [trimEnd_append_blanks htrail, trim, trimStart]

/-- A text is what trimming leaves of it, with some blanks around. -/
theorem exists_surrounded (text : List Char) : ∃ lead trail, text = lead ++ trim text ++ trail ∧
    (∀ c ∈ lead, isBlank c) ∧ ∀ c ∈ trail, isBlank c := by
  have hblank : ∀ cs : List Char, ∀ c ∈ cs.takeWhile isBlank, isBlank c := fun cs =>
    List.all_eq_true.1 List.all_takeWhile
  refine ⟨text.takeWhile isBlank, ((trimStart text).reverse.takeWhile isBlank).reverse, ?_,
    hblank _, fun c hc => hblank _ c (List.mem_reverse.1 hc)⟩
  rw [List.append_assoc, trim, trimEnd, ← List.reverse_append, List.takeWhile_append_dropWhile,
    List.reverse_reverse, trimStart, List.takeWhile_append_dropWhile]

/-- Nothing but blanks is taken away. -/
theorem mem_trim_iff {c : Char} {text : List Char} (h : ¬ isBlank c) :
    c ∈ trim text ↔ c ∈ text := by
  refine ⟨mem_of_mem_trim, fun hmem => ?_⟩
  obtain ⟨lead, trail, htext, hlead, htrail⟩ := exists_surrounded text
  rw [htext, List.mem_append, List.mem_append] at hmem
  rcases hmem with (hmem | hmem) | hmem
  · exact absurd (hlead c hmem) h
  · exact hmem
  · exact absurd (htrail c hmem) h

end PaperGraph.Text
