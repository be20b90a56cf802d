import Mathlib.Data.List.Infix
import Mathlib.Data.List.Nodup
import PaperGraph.Directive.ShortForms
import PaperGraph.Proofs.Cutting

/-!
# Short forms in turn and at once

Short forms are resolved one after the other, each in what the earlier ones have left.
This is not the same as resolving all of them at once: a later token that stands with a
colon in what an earlier one has brought in, or across the seam between that and the text
around it, is resolved there, too.

* `replaceEach`: a text with all short forms resolved at once;
* `Plain`: tokens whose occurrences in a text do not touch each other;
* `resolveAll_occurrence`: what becomes of an occurrence of a token, in its turn and later;
* `resolveAll_eq_replaceEach`: if every token meets nothing in its turn but what stems from
  the text, then all are resolved as if at once;
* `Clear`: expansions that leave nothing for other tokens to meet;
* `resolve_in_turn`: all this for the short forms of a paper.
-/

namespace PaperGraph.ShortForms

open Text

/-! ## Occurrences of tokens -/

/-- What is looked for: a token with a colon after it. -/
def needle (form : String × String) : List Char :=
  form.1.toList ++ [':']

/-- No token has a colon, and none is the end of another one. -/
structure Plain (forms : List (String × String)) : Prop where
  /-- There are no colons. -/
  colon : ∀ form ∈ forms, ':' ∉ form.1.toList
  /-- There are no ends of other tokens. -/
  ending : ∀ form ∈ forms, ∀ other ∈ forms, form ≠ other →
    ¬ form.1.toList <:+ other.1.toList

theorem plain_iff {forms : List (String × String)} : Plain forms ↔
    (∀ form ∈ forms, ':' ∉ form.1.toList) ∧
      ∀ form ∈ forms, ∀ other ∈ forms, form ≠ other → ¬ form.1.toList <:+ other.1.toList :=
  ⟨fun h => ⟨h.colon, h.ending⟩, fun ⟨hcolon, hending⟩ => ⟨hcolon, hending⟩⟩

instance (forms : List (String × String)) : Decidable (Plain forms) :=
  decidable_of_iff _ plain_iff.symm

variable {all forms done : List (String × String)} {form other : String × String}
  {text before after rest : List Char} {c : Char}

theorem Plain.mono (h : Plain all) (hsub : forms ⊆ all) : Plain forms where
  colon form hform := h.colon form (hsub hform)
  ending form hform other hother := h.ending form (hsub hform) other (hsub hother)

theorem needle_ne_nil (form : String × String) : needle form ≠ [] := by
  simp [needle]

/-- A text is cut at its first colon in one way only. -/
theorem append_colon_inj {start start' rest rest' : List Char} (h : ':' ∉ start)
    (h' : ':' ∉ start') (he : start ++ ':' :: rest = start' ++ ':' :: rest') :
    start = start' ∧ rest = rest' := by
  have hrun : ∀ run : List Char, ':' ∉ run → ∀ c ∈ run, (· != ':') c := fun run hrun c hc =>
    bne_iff_ne.2 (ne_of_mem_of_not_mem hc hrun)
  obtain ⟨hstart, -, hrest⟩ := run_append_inj (hrun start h) (hrun start' h') (by decide)
    (by decide) he
  exact ⟨hstart, hrest⟩

/-- Where a text starts with a token and a colon, another one does not stand before that
    has ended. -/
theorem Plain.eq_or_beyond (h : Plain all) (hform : form ∈ all) (hother : other ∈ all)
    (he : needle form ++ rest = before ++ needle other ++ after) :
    (before = [] ∧ form = other ∧ rest = after) ∨
      ∃ gap, before = needle form ++ gap ∧ rest = gap ++ needle other ++ after := by
  simp only [needle, List.append_assoc, List.cons_append, List.nil_append] at he
  by_cases hcolon : ':' ∈ before
  · -- The first colon is that of the first token.
    right
    obtain ⟨start, gap, rfl, hstart⟩ := List.eq_append_cons_of_mem hcolon
    rw [List.append_assoc, List.cons_append] at he
    obtain ⟨rfl, rfl⟩ := append_colon_inj (h.colon form hform) hstart he
    exact ⟨gap, by simp [needle], by simp [needle]⟩
  · left
    have hstart : ':' ∉ before ++ other.1.toList := by
      simp [hcolon, h.colon other hother]
    rw [← List.append_assoc] at he
    obtain ⟨htoken, hrest⟩ := append_colon_inj (h.colon form hform) hstart he
    have hsame : other = form := by
      by_contra hne
      exact h.ending other hother form hform hne ⟨before, htoken.symm⟩
    rw [hsame] at htoken
    exact ⟨List.self_eq_append_left.1 htoken, hsame.symm, hrest⟩

/-! ## All at once -/

/-- The first of the forms with whose token and a colon the text starts, and what follows. -/
def first? (forms : List (String × String)) (text : List Char) :
    Option ((String × String) × List Char) :=
  forms.findSome? fun form => (stripStart? (needle form) text).map (Prod.mk form)

theorem mem_of_first? {found : String × String} (h : first? forms text = some (found, after)) :
    found ∈ forms ∧ text = needle found ++ after := by
  obtain ⟨form, hform, hstrip⟩ := List.exists_of_findSome?_eq_some h
  obtain ⟨rest, hrest, hpair⟩ := Option.map_eq_some_iff.1 hstrip
  obtain ⟨rfl, rfl⟩ := Prod.mk.inj hpair
  exact ⟨hform, append_of_stripStart? hrest⟩

theorem first?_eq_none_iff : first? forms text = none ↔ ∀ form ∈ forms, ¬ needle form <+: text := by
  rw [first?, List.findSome?_eq_none_iff]
  refine forall₂_congr fun form _ => ?_
  rw [Option.map_eq_none_iff]
  constructor
  · rintro hnone ⟨after, rfl⟩
    rw [stripStart?_append] at hnone
    cases hnone
  · intro hnot
    rw [Option.eq_none_iff_forall_not_mem]
    exact fun after hafter => hnot ⟨after, (append_of_stripStart? hafter).symm⟩

/-- A text with every token that has a colon after it replaced by its expansion, all at
    once and from left to right, what is put in not being looked at again. -/
def replaceEach (forms : List (String × String)) : (text : List Char) → List Char
  | [] => []
  | c :: rest =>
    match _hs : first? forms (c :: rest) with
    | some (form, after) => form.2.toList ++ replaceEach forms after
    | none => c :: replaceEach forms rest
termination_by text => text.length
decreasing_by
  · have hlength := congrArg List.length (mem_of_first? _hs).2
    have hpos := List.length_pos_iff.2 (needle_ne_nil form)
    rw [List.length_append] at hlength
    omega
  · simp

theorem replaceEach_cons (h : ∀ form ∈ forms, ¬ needle form <+: c :: rest) :
    replaceEach forms (c :: rest) = c :: replaceEach forms rest := by
  rw [replaceEach]
  split
  · next hs => rw [first?_eq_none_iff.2 h] at hs; cases hs
  · rfl

theorem replaceEach_needle (h : Plain forms) (hform : form ∈ forms) (rest : List Char) :
    replaceEach forms (needle form ++ rest) = form.2.toList ++ replaceEach forms rest := by
  obtain ⟨c, tail, htext⟩ := List.exists_cons_of_ne_nil
    (List.append_ne_nil_of_left_ne_nil (needle_ne_nil form) rest)
  rw [htext, replaceEach]
  split
  · next found after hs =>
    obtain ⟨hfound, he⟩ := mem_of_first? hs
    rw [← htext, ← List.nil_append (needle found)] at he
    obtain ⟨-, rfl, rfl⟩ | ⟨gap, hgap, -⟩ := h.eq_or_beyond hform hfound he
    · rfl
    · exact absurd hgap.symm (List.append_ne_nil_of_left_ne_nil (needle_ne_nil form) gap)
  · next hs =>
    exact absurd ⟨rest, htext⟩ (first?_eq_none_iff.1 hs form hform)

/-- What is shown of a text by going through it from left to right, from token to token. -/
@[elab_as_elim]
theorem scan_induction (forms : List (String × String)) {motive : List Char → Prop}
    (nil : motive [])
    (occurrence : ∀ form ∈ forms, ∀ rest, motive rest → motive (needle form ++ rest))
    (kept : ∀ c rest, (∀ form ∈ forms, ¬ needle form <+: c :: rest) → motive rest →
      motive (c :: rest)) (text : List Char) : motive text := by
  fun_induction replaceEach forms text with
  | case1 => exact nil
  | case2 c rest form after hs ih =>
    obtain ⟨hform, he⟩ := mem_of_first? hs
    rw [he]
    exact occurrence form hform after ih
  | case3 c rest hs ih => exact kept c rest (first?_eq_none_iff.1 hs) ih

/-- What stands before the text in which tokens stand is kept if no token starts there. -/
theorem replaceEach_append_of_not {start : List Char}
    (h : ∀ skipped kept, start = skipped ++ kept → kept ≠ [] →
      ∀ form ∈ forms, ¬ needle form <+: kept ++ rest) :
    replaceEach forms (start ++ rest) = start ++ replaceEach forms rest := by
  induction start with
  | nil => rfl
  | cons c start ih =>
    have hfirst : ∀ form ∈ forms, ¬ needle form <+: c :: (start ++ rest) :=
      h [] (c :: start) rfl (List.cons_ne_nil c start)
    rw [List.cons_append, replaceEach_cons hfirst,
      ih fun skipped kept hstart hne => h (c :: skipped) kept (by rw [hstart]; rfl) hne,
      List.cons_append]

/-- A token is kept by the other ones. -/
theorem replaceEach_other (h : Plain all) (hsub : forms ⊆ all) (hform : form ∈ all)
    (hother : form ∉ forms) (rest : List Char) :
    replaceEach forms (needle form ++ rest) = needle form ++ replaceEach forms rest := by
  refine replaceEach_append_of_not fun skipped kept hkept hne other hmem hstarts => ?_
  obtain ⟨after, he⟩ := hstarts
  -- Put back what is skipped, the other token stands within this one.
  have hwhole : needle form ++ rest = skipped ++ needle other ++ after := by
    rw [hkept, List.append_assoc, ← he, List.append_assoc]
  obtain ⟨-, rfl, -⟩ | ⟨gap, hgap, -⟩ := h.eq_or_beyond hform (hsub hmem) hwhole
  · exact hother hmem
  · have hlength := congrArg List.length hkept
    rw [hgap] at hlength
    simp only [List.length_append] at hlength
    exact hne (List.eq_nil_of_length_eq_zero (by omega))

/-- What stands before a token is replaced as if the token were not there. -/
theorem replaceEach_append (h : Plain all) (hsub : forms ⊆ all) (hform : form ∈ all)
    (before after : List Char) :
    replaceEach forms (before ++ (needle form ++ after)) =
      replaceEach forms before ++ replaceEach forms (needle form ++ after) := by
  induction before using scan_induction forms with
  | nil => rw [replaceEach.eq_1]; rfl
  | occurrence other hother rest ih =>
    rw [List.append_assoc, replaceEach_needle (h.mono hsub) hother,
      replaceEach_needle (h.mono hsub) hother, ih, List.append_assoc]
  | kept c rest hnot ih =>
    have hnot' : ∀ other ∈ forms, ¬ needle other <+: c :: (rest ++ (needle form ++ after)) := by
      rintro other hother ⟨tail, he⟩
      rw [← List.cons_append, ← List.append_assoc] at he
      obtain ⟨hnil, -⟩ | ⟨gap, hgap, -⟩ := h.eq_or_beyond (hsub hother) hform he
      · cases hnil
      · exact hnot other hother ⟨gap, hgap.symm⟩
    rw [List.cons_append, replaceEach_cons hnot', replaceEach_cons hnot, ih, List.cons_append]

/-- Every occurrence of a token is replaced. -/
theorem replaceEach_occurrence (h : Plain forms) (hform : form ∈ forms)
    (before after : List Char) :
    replaceEach forms (before ++ needle form ++ after) =
      replaceEach forms before ++ form.2.toList ++ replaceEach forms after := by
  rw [List.append_assoc, replaceEach_append h (List.Subset.refl forms) hform,
    replaceEach_needle h hform, List.append_assoc]

/-- Where no token occurs, nothing is replaced. -/
theorem replaceEach_eq_self (h : ∀ form ∈ forms, ¬ needle form <:+: text) :
    replaceEach forms text = text := by
  induction text with
  | nil => rw [replaceEach]
  | cons c rest ih =>
    rw [replaceEach_cons fun form hform hstarts => h form hform hstarts.isInfix,
      ih fun form hform hoccurs => h form hform (List.infix_cons hoccurs)]

/-- A token that does not occur can be left out. -/
theorem replaceEach_concat_of_not (h : Plain all) (hsub : done ++ [form] ⊆ all)
    (hnot : ¬ needle form <:+: text) :
    replaceEach (done ++ [form]) text = replaceEach done text := by
  have hdone : done ⊆ all := fun _ hmem => hsub (List.mem_append_left [form] hmem)
  induction text using scan_induction done with
  | nil => rw [replaceEach, replaceEach]
  | occurrence other hother rest ih =>
    rw [replaceEach_needle (h.mono hsub) (List.mem_append_left [form] hother),
      replaceEach_needle (h.mono hdone) hother,
      ih fun hoccurs => hnot (hoccurs.trans (List.suffix_append _ _).isInfix)]
  | kept c rest hkept ih =>
    have hkept' : ∀ other ∈ done ++ [form], ¬ needle other <+: c :: rest := by
      intro other hother
      rcases List.mem_append.1 hother with hother | hother
      · exact hkept other hother
      · rw [List.mem_singleton.1 hother]
        exact fun hstarts => hnot hstarts.isInfix
    rw [replaceEach_cons hkept', replaceEach_cons hkept,
      ih fun hoccurs => hnot (List.infix_cons hoccurs)]

/-- All are replaced in the same way in whatever order they are listed. -/
theorem replaceEach_congr (h : Plain forms) (hsame : ∀ form, form ∈ done ↔ form ∈ forms)
    (text : List Char) : replaceEach done text = replaceEach forms text := by
  have hdone : Plain done := h.mono fun form => (hsame form).1
  induction text using scan_induction forms with
  | nil => rw [replaceEach, replaceEach]
  | occurrence form hform rest ih =>
    rw [replaceEach_needle h hform, replaceEach_needle hdone ((hsame form).2 hform), ih]
  | kept c rest hnot ih =>
    rw [replaceEach_cons hnot, replaceEach_cons fun form hform => hnot form ((hsame form).1 hform),
      ih]

/-! ## In turn -/

/-- A text with these short forms resolved, one after the other. -/
def resolveAll (forms : List (String × String)) (text : List Char) : List Char :=
  forms.foldl resolveToken text

theorem resolveAll_append (forms more : List (String × String)) (text : List Char) :
    resolveAll (forms ++ more) text = resolveAll more (resolveAll forms text) :=
  List.foldl_append

/-- To resolve a single token is to replace it everywhere. -/
theorem resolveToken_eq (h : Plain [form]) (text : List Char) :
    resolveToken text form = replaceEach [form] text := by
  rw [resolveToken, ← needle]
  fun_induction replaceAll (needle form) form.2.toList text with
  | case1 => rw [replaceEach]
  | case2 c rest after hs hn => exact absurd hn (needle_ne_nil form)
  | case3 c rest after hs hn ih =>
    rw [append_of_stripStart? hs, replaceEach_needle h List.mem_cons_self, ih]
  | case4 c rest hs ih =>
    rw [replaceEach_cons, ih]
    rintro other hother ⟨after, he⟩
    rw [List.mem_singleton.1 hother] at he
    rw [← he, stripStart?_append] at hs
    cases hs

/-- A token is kept until its turn, with what stands before and after it resolved. -/
theorem resolveAll_other (h : Plain all) (hsub : forms ⊆ all) (hform : form ∈ all)
    (hother : form ∉ forms) (before after : List Char) :
    resolveAll forms (before ++ needle form ++ after) =
      resolveAll forms before ++ needle form ++ resolveAll forms after := by
  induction forms generalizing before after with
  | nil => rfl
  | cons first forms ih =>
    rw [List.mem_cons, not_or] at hother
    have hfirst : [first] ⊆ all := fun _ hmem =>
      hsub (List.mem_singleton.1 hmem ▸ List.mem_cons_self)
    have hstep : resolveToken (before ++ needle form ++ after) first =
        resolveToken before first ++ needle form ++ resolveToken after first := by
      rw [resolveToken_eq (h.mono hfirst), resolveToken_eq (h.mono hfirst),
        resolveToken_eq (h.mono hfirst), List.append_assoc, replaceEach_append h hfirst hform,
        replaceEach_other h hfirst hform (by simpa using hother.1), List.append_assoc]
    rw [resolveAll, List.foldl_cons, hstep]
    exact ih (fun _ hmem => hsub (List.mem_cons_of_mem first hmem)) hother.2 _ _

/-- No form has a second turn. -/
theorem not_mem_of_nodup {later : List (String × String)}
    (h : (done ++ form :: later).Nodup) : form ∉ done := fun hmem =>
  (List.nodup_cons.1 (List.nodup_middle.1 h)).1 (List.mem_append_left later hmem)

/-- An occurrence of a token is kept until the turn of the token, then its expansion is put
    in its place. Only later tokens are looked for in what is put in, with what stands
    around it by then. -/
theorem resolveAll_occurrence {later : List (String × String)} (h : Plain (done ++ form :: later))
    (hnodup : (done ++ form :: later).Nodup) (before after : List Char) :
    resolveAll (done ++ form :: later) (before ++ needle form ++ after) =
      resolveAll later (resolveAll (done ++ [form]) before ++ form.2.toList ++
        resolveAll (done ++ [form]) after) := by
  have hform : form ∈ done ++ form :: later := by simp
  have hnot : form ∉ done := not_mem_of_nodup hnodup
  have hplain : Plain [form] := h.mono (by simp)
  have hturn : resolveToken (resolveAll done (before ++ needle form ++ after)) form =
      resolveAll (done ++ [form]) before ++ form.2.toList ++ resolveAll (done ++ [form]) after := by
    rw [resolveAll_other h (List.subset_append_left _ _) hform hnot, resolveToken_eq hplain,
      replaceEach_occurrence hplain List.mem_cons_self, resolveAll_append, resolveAll_append]
    simp only [← resolveToken_eq hplain]
    rfl
  rw [resolveAll_append, resolveAll, List.foldl_cons, hturn]
  rfl

/-! ## What is met in turn -/

/-- Once some forms are replaced, every occurrence of another token stems from the text. -/
def Stems (done : List (String × String)) (form : String × String) (text : List Char) : Prop :=
  ∀ before after, replaceEach done text = before ++ needle form ++ after →
    ∃ before' after', text = before' ++ needle form ++ after' ∧
      replaceEach done before' = before ∧ replaceEach done after' = after

/-- Two occurrences of a token are the same, or one stands before the other. -/
theorem Plain.same_or_apart (h : Plain all) (hform : form ∈ all) {before' after' : List Char}
    (he : before ++ needle form ++ after = before' ++ needle form ++ after') :
    (before = before' ∧ after = after') ∨
      (∃ gap, before = before' ++ needle form ++ gap ∧ after' = gap ++ needle form ++ after) ∨
      ∃ gap, before' = before ++ needle form ++ gap ∧ after = gap ++ needle form ++ after' := by
  rw [List.append_assoc, List.append_assoc, List.append_eq_append_iff] at he
  rcases he with ⟨more, rfl, he⟩ | ⟨more, rfl, he⟩
  · rw [← List.append_assoc] at he
    obtain ⟨rfl, -, rfl⟩ | ⟨gap, rfl, rfl⟩ := h.eq_or_beyond hform hform he
    · exact .inl ⟨(List.append_nil _).symm, rfl⟩
    · exact .inr (.inr ⟨gap, (List.append_assoc _ _ _).symm, rfl⟩)
  · rw [← List.append_assoc] at he
    obtain ⟨rfl, -, rfl⟩ | ⟨gap, rfl, rfl⟩ := h.eq_or_beyond hform hform he
    · exact .inl ⟨List.append_nil _, rfl⟩
    · exact .inr (.inl ⟨gap, (List.append_assoc _ _ _).symm, rfl⟩)

section

variable (h : Plain all) (hsub : done ⊆ all) (hform : form ∈ all) (hother : form ∉ done)

include h hsub hform hother

theorem replaceEach_kept (before after : List Char) :
    replaceEach done (before ++ needle form ++ after) =
      replaceEach done before ++ needle form ++ replaceEach done after := by
  rw [List.append_assoc, replaceEach_append h hsub hform, replaceEach_other h hsub hform hother,
    List.append_assoc]

theorem stems_before (hstems : Stems done form (before ++ needle form ++ after)) :
    Stems done form before := by
  intro start rest he
  have hwhole : replaceEach done (before ++ needle form ++ after) =
      start ++ needle form ++ (rest ++ needle form ++ replaceEach done after) := by
    rw [replaceEach_kept h hsub hform hother, he]
    simp only [List.append_assoc]
  obtain ⟨start', rest', htext, rfl, hrest⟩ := hstems _ _ hwhole
  obtain ⟨rfl, rfl⟩ | ⟨gap, rfl, rfl⟩ | ⟨gap, rfl, rfl⟩ := h.same_or_apart hform htext
  · have hlength := congrArg List.length he
    have hpos := List.length_pos_iff.2 (needle_ne_nil form)
    simp only [List.length_append] at hlength
    omega
  · refine ⟨start', gap, rfl, rfl, ?_⟩
    rw [replaceEach_kept h hsub hform hother] at hrest
    exact List.append_cancel_right (List.append_cancel_right hrest)
  · have hlength := congrArg List.length he
    have hpos := List.length_pos_iff.2 (needle_ne_nil form)
    rw [replaceEach_kept h hsub hform hother] at hlength
    simp only [List.length_append] at hlength
    omega

theorem stems_after (hstems : Stems done form (before ++ needle form ++ after)) :
    Stems done form after := by
  intro start rest he
  have hwhole : replaceEach done (before ++ needle form ++ after) =
      (replaceEach done before ++ needle form ++ start) ++ needle form ++ rest := by
    rw [replaceEach_kept h hsub hform hother, he]
    simp only [List.append_assoc]
  obtain ⟨start', rest', htext, hstart, rfl⟩ := hstems _ _ hwhole
  have hlength := congrArg List.length hstart
  have hpos := List.length_pos_iff.2 (needle_ne_nil form)
  obtain ⟨rfl, rfl⟩ | ⟨gap, rfl, rfl⟩ | ⟨gap, rfl, rfl⟩ := h.same_or_apart hform htext
  · simp only [List.length_append] at hlength
    omega
  · rw [replaceEach_kept h hsub hform hother] at hlength
    simp only [List.length_append] at hlength
    omega
  · refine ⟨gap, rest', rfl, ?_, rfl⟩
    rw [replaceEach_kept h hsub hform hother] at hstart
    exact List.append_cancel_left hstart

/-- A token that meets nothing but what stems from the text is replaced as if at once with
    the earlier ones. -/
theorem replaceEach_concat (hstems : Stems done form text) :
    replaceEach [form] (replaceEach done text) = replaceEach (done ++ [form]) text := by
  have hown : [form] ⊆ all := by simpa using hform
  have hboth : done ++ [form] ⊆ all := List.append_subset.2 ⟨hsub, hown⟩
  induction hn : text.length using Nat.strong_induction_on generalizing text with
  | _ n ih =>
    by_cases hoccurs : needle form <:+: text
    · -- The text is cut at an occurrence, and both parts are shorter.
      obtain ⟨before, after, rfl⟩ := hoccurs
      have hpos := List.length_pos_iff.2 (needle_ne_nil form)
      simp only [List.length_append] at hn
      rw [replaceEach_kept h hsub hform hother,
        replaceEach_occurrence (h.mono hown) List.mem_cons_self,
        replaceEach_occurrence (h.mono hboth) (by simp),
        ih before.length (by omega) (stems_before h hsub hform hother hstems) rfl,
        ih after.length (by omega) (stems_after h hsub hform hother hstems) rfl]
    · -- The token does not occur, and is met nowhere.
      have hnot : ¬ needle form <:+: replaceEach done text := by
        rintro ⟨start, rest, he⟩
        obtain ⟨start', rest', htext, -⟩ := hstems start rest he.symm
        exact hoccurs ⟨start', rest', htext.symm⟩
      rw [replaceEach_eq_self (by simpa using hnot), replaceEach_concat_of_not h hboth hoccurs]

end

/-- If every token meets nothing in its turn but what stems from the text, then all are
    resolved as if at once. -/
theorem resolveAll_eq_replaceEach (h : Plain forms) (hnodup : forms.Nodup)
    (hstems : ∀ done form later, forms = done ++ form :: later → Stems done form text) :
    resolveAll forms text = replaceEach forms text := by
  suffices hturn : ∀ done, done <+: forms → resolveAll done text = replaceEach done text from
    hturn forms List.prefix_rfl
  intro done hdone
  induction done using List.reverseRecOn with
  | nil => rw [replaceEach_eq_self (by simp)]; rfl
  | append_singleton done form ih =>
    obtain ⟨later, hforms⟩ := hdone
    rw [List.append_assoc, List.singleton_append] at hforms
    have hsub : done ⊆ forms := hforms ▸ List.subset_append_left _ _
    have hform : form ∈ forms := by rw [← hforms]; simp
    have hother : form ∉ done := not_mem_of_nodup (hforms ▸ hnodup)
    rw [resolveAll_append, ih ⟨form :: later, hforms⟩,
      ← replaceEach_concat h hsub hform hother (hstems done form later hforms.symm),
      ← resolveToken_eq (h.mono (by simpa using hform))]
    rfl

/-! ## Expansions that leave nothing to meet -/

/-- Wherever an expansion is put, nothing of it is part of an occurrence of the needle. -/
structure Clear (expansion needle : List Char) : Prop where
  /-- There is no needle in it. -/
  inside : ¬ needle <:+: expansion
  /-- It does not stand in a needle. -/
  across : ¬ expansion <:+: needle
  /-- It does not start with the end of a needle. -/
  left : ∀ start, start <+: expansion → start <:+ needle → start = []
  /-- It does not end with the start of a needle. -/
  right : ∀ tail, tail <:+ expansion → tail <+: needle → tail = []

theorem clear_iff {expansion needle : List Char} : Clear expansion needle ↔
    ¬ needle <:+: expansion ∧ ¬ expansion <:+: needle ∧
      (∀ start ∈ expansion.inits, start <:+ needle → start = []) ∧
      ∀ tail ∈ expansion.tails, tail <+: needle → tail = [] := by
  simp only [List.mem_inits, List.mem_tails]
  exact ⟨fun h => ⟨h.inside, h.across, h.left, h.right⟩,
    fun ⟨hinside, hacross, hleft, hright⟩ => ⟨hinside, hacross, hleft, hright⟩⟩

instance (expansion needle : List Char) : Decidable (Clear expansion needle) :=
  decidable_of_iff _ clear_iff.symm

theorem Clear.apart {expansion needle : List Char} (h : Clear expansion needle)
    {front back : List Char} (he : front ++ expansion ++ back = before ++ needle ++ after) :
    (∃ gap, front = before ++ needle ++ gap) ∨ ∃ gap, before = front ++ expansion ++ gap := by
  rw [List.append_assoc, List.append_assoc, List.append_eq_append_iff] at he
  rcases he with ⟨more, rfl, he⟩ | ⟨more, rfl, he⟩
  · -- The expansion starts first.
    right
    rcases List.append_eq_append_iff.1 he with ⟨gap, rfl, -⟩ | ⟨tail, rfl, hrest⟩
    · exact ⟨gap, (List.append_assoc _ _ _).symm⟩
    · rcases List.append_eq_append_iff.1 hrest with ⟨_, rfl, -⟩ | ⟨_, rfl, -⟩
      · exact absurd ⟨more, _, List.append_assoc _ _ _⟩ h.inside
      · obtain rfl := h.right tail (List.suffix_append _ _) (List.prefix_append _ _)
        exact ⟨[], by simp⟩
  · -- The needle starts first.
    rcases List.append_eq_append_iff.1 he with ⟨gap, rfl, -⟩ | ⟨start, rfl, hrest⟩
    · exact .inl ⟨gap, (List.append_assoc _ _ _).symm⟩
    · rcases List.append_eq_append_iff.1 hrest with ⟨_, rfl, -⟩ | ⟨_, rfl, -⟩
      · exact absurd ⟨more, _, List.append_assoc _ _ _⟩ h.across
      · obtain rfl := h.left start (List.prefix_append _ _) (List.suffix_append _ _)
        exact .inl ⟨[], by simp⟩

/-- If the rest of a needle stands in a text in which clear expansions were put, then it
    stood there before. -/
theorem exists_of_replaceEach (h : Plain done)
    (hclear : ∀ earlier ∈ done, Clear earlier.2.toList (needle form)) {start kept : List Char}
    (hneedle : needle form = start ++ kept) (hstart : start ≠ [])
    (he : replaceEach done text = kept ++ after) :
    ∃ after', text = kept ++ after' ∧ replaceEach done after' = after := by
  induction text using scan_induction done generalizing start kept with
  | nil =>
    rw [replaceEach] at he
    obtain ⟨rfl, rfl⟩ := List.append_eq_nil_iff.1 he.symm
    exact ⟨[], rfl, by rw [replaceEach]⟩
  | occurrence earlier hearlier rest ih =>
    by_cases hkept : kept = []
    · subst hkept
      exact ⟨_, rfl, he⟩
    · -- The needle would end in the expansion, or behind it.
      rw [replaceEach_needle h hearlier] at he
      have hwhole : start ++ earlier.2.toList ++ replaceEach done rest =
          [] ++ needle form ++ after := by
        rw [List.append_assoc, he, hneedle, List.nil_append, List.append_assoc]
      obtain ⟨gap, hgap⟩ | ⟨gap, hgap⟩ := (hclear earlier hearlier).apart hwhole
      · have hlength := congrArg List.length hgap
        have hpos := List.length_pos_iff.2 hkept
        simp only [hneedle, List.length_append, List.length_nil] at hlength
        omega
      · rw [List.append_assoc] at hgap
        exact absurd (List.append_eq_nil_iff.1 hgap.symm).1 hstart
  | kept c rest hnot ih =>
    cases kept with
    | nil => exact ⟨_, rfl, he⟩
    | cons d kept =>
      rw [replaceEach_cons hnot, List.cons_append] at he
      obtain ⟨rfl, hrest⟩ := List.cons.inj he
      have hneedle' : needle form = (start ++ [c]) ++ kept := by simp [hneedle]
      obtain ⟨after', rfl, hafter⟩ := ih hneedle' (by simp) hrest
      exact ⟨after', rfl, hafter⟩

theorem stems_of_clear (h : Plain done)
    (hclear : ∀ earlier ∈ done, Clear earlier.2.toList (needle form)) (text : List Char) :
    Stems done form text := by
  induction text using scan_induction done with
  | nil =>
    intro before after he
    rw [replaceEach] at he
    simp [needle] at he
  | occurrence earlier hearlier rest ih =>
    intro before after he
    rw [replaceEach_needle h hearlier] at he
    rw [← List.nil_append earlier.2.toList] at he
    obtain ⟨gap, hgap⟩ | ⟨gap, rfl⟩ := (hclear earlier hearlier).apart he
    · simp [needle] at hgap
    · simp only [List.nil_append, List.append_assoc] at he
      obtain ⟨before', after', rfl, rfl, hafter⟩ := ih gap after (by
        rw [List.append_cancel_left he, List.append_assoc])
      exact ⟨needle earlier ++ before', after', by simp only [List.append_assoc],
        replaceEach_needle h hearlier before', hafter⟩
  | kept c rest hnot ih =>
    intro before after he
    rw [replaceEach_cons hnot] at he
    cases before with
    | nil =>
      obtain ⟨d, kept, hneedle⟩ := List.exists_cons_of_ne_nil (needle_ne_nil form)
      rw [hneedle, List.nil_append, List.cons_append] at he
      obtain ⟨rfl, hrest⟩ := List.cons.inj he
      obtain ⟨after', rfl, hafter⟩ :=
        exists_of_replaceEach h hclear (hneedle : _ = [c] ++ kept) (List.cons_ne_nil c []) hrest
      exact ⟨[], after', by rw [hneedle]; rfl, by rw [replaceEach], hafter⟩
    | cons d before =>
      obtain ⟨rfl, hrest⟩ := List.cons.inj he
      obtain ⟨before', after', rfl, rfl, hafter⟩ := ih before after hrest
      refine ⟨c :: before', after', rfl, replaceEach_cons fun other hother hstarts => ?_, hafter⟩
      refine hnot other hother (hstarts.trans ?_)
      rw [List.append_assoc, ← List.cons_append]
      exact List.prefix_append _ _

theorem resolveAll_of_clear (h : Plain forms) (hnodup : forms.Nodup)
    (hclear : forms.Pairwise fun earlier form => Clear earlier.2.toList (needle form))
    (text : List Char) : resolveAll forms text = replaceEach forms text := by
  refine resolveAll_eq_replaceEach h hnodup fun done form later hforms => ?_
  have hbefore : ∀ earlier ∈ done, Clear earlier.2.toList (needle form) := by
    rw [hforms] at hclear
    exact fun earlier hearlier =>
      (List.pairwise_append.1 hclear).2.2 earlier hearlier form List.mem_cons_self
  exact stems_of_clear (h.mono (hforms ▸ List.subset_append_left _ _)) hbefore text

/-! ## The short forms of a paper -/

theorem nodup_entries (forms : Dictionary) : forms.entries.Nodup :=
  forms.ordered.imp fun hlt he => by
    rw [he] at hlt
    exact absurd hlt (String.lt_irrefl _)

/-- Every occurrence of a token is kept until the turn of the token, in the order of the
    dictionary, and then its expansion is put in its place, which only later tokens see. If
    every token meets nothing in its turn but what stems from the text, then all occurrences
    are replaced as if at once. This holds for all texts, whatever the order, if no expansion
    can be part of an occurrence of a later token. -/
theorem resolve_in_turn (forms : Dictionary) (hplain : Plain forms.entries) (text : List Char) :
    (∀ done form later before after, forms.entries = done ++ form :: later →
      text = before ++ needle form ++ after →
      resolve forms text = resolveAll later (resolveAll (done ++ [form]) before ++
        form.2.toList ++ resolveAll (done ++ [form]) after)) ∧
    ((∀ done form later, forms.entries = done ++ form :: later → Stems done form text) →
      resolve forms text = replaceEach forms.entries text) ∧
    ∀ order : List (String × String), order.Perm forms.entries →
      (order.Pairwise fun earlier form => Clear earlier.2.toList (needle form)) →
      resolveAll order text = replaceEach forms.entries text := by
  have hnodup := nodup_entries forms
  refine ⟨fun done form later before after hforms htext => ?_,
    resolveAll_eq_replaceEach hplain hnodup, fun order hperm hclear => ?_⟩
  · rw [resolve, ← resolveAll, htext, hforms]
    exact resolveAll_occurrence (hforms ▸ hplain) (hforms ▸ hnodup) before after
  · have horder : Plain order := hplain.mono hperm.subset
    rw [resolveAll_of_clear horder (hperm.nodup_iff.2 hnodup) hclear]
    exact replaceEach_congr hplain (fun _ => hperm.mem_iff) text

/-- Short forms for two sites. -/
def cascading : Dictionary :=
  (Dictionary.empty.insert "ex" "https://example.org/").insert "s" "https://schema.org/"

/-- The scheme of one expansion ends with the other token. -/
theorem resolve_cascading :
    Plain cascading.entries ∧
    resolve cascading "ex:a".toList = "httphttps://schema.org///example.org/a".toList ∧
    replaceEach cascading.entries "ex:a".toList = "https://example.org/a".toList ∧
    resolve cascading "ex:a".toList ≠ replaceEach cascading.entries "ex:a".toList := by
  decide +kernel

/-- Two short forms that are resolved as if at once. -/
def nested : Dictionary :=
  (Dictionary.empty.insert "terms" "https://example.org/terms/").insert "ex" "https://example.org/"

theorem resolve_nested :
    Plain nested.entries ∧
    (nested.entries.Pairwise fun earlier form => Clear earlier.2.toList (needle form)) ∧
    resolve nested "ex:a=terms:b".toList = replaceEach nested.entries "ex:a=terms:b".toList ∧
    replaceEach nested.entries "ex:a=terms:b".toList =
      "https://example.org/a=https://example.org/terms/b".toList ∧
    resolve nested "ex:a=terms:b".toList =
      resolveAll nested.entries "ex:a=".toList ++ "https://example.org/terms/".toList ++
        resolveAll nested.entries "b".toList := by
  have hplain : Plain nested.entries := by decide +kernel
  have hclear : nested.entries.Pairwise fun earlier form =>
      Clear earlier.2.toList (needle form) := by
    decide +kernel
  exact ⟨hplain, hclear, (resolve_in_turn nested hplain _).2.2 _ (.refl _) hclear,
    by decide +kernel, (resolve_in_turn nested hplain _).1
      [("ex", "https://example.org/")] ("terms", "https://example.org/terms/") []
      "ex:a=".toList "b".toList (by decide +kernel) (by decide +kernel)⟩

end PaperGraph.ShortForms
