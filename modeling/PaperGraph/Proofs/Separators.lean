import PaperGraph.Proofs.Expansions

/-!
# Short forms on both sides of a separator

What is looked for in a text stands between two of its separators: an occurrence that goes
from one side of a character to the other contains that character. So a character that is
in no token, and is no colon, separates a text. What stands before it and what stands after
it are resolved each on its own, token by token, and the character is kept. This needs
nothing of the tokens and of the expansions: a token may be empty or the end of another one,
and an expansion may bring in separators, or occurrences of later tokens.

* `prefix_append_cons_iff`: what stands at the start of a text stands there before the
  separator;
* `replaceAll_append_cons`: one replacement, on both sides of a separator;
* `Separates`: the characters that separate texts for some short forms;
* `resolve_apart`: short forms are resolved on both sides of a separator, and a text without
  an occurrence of a token stays as it is.
-/

namespace PaperGraph

namespace Text

variable {needle text rest : List Char} {c : Char}

/-- Nothing without a separator goes beyond the first one. -/
theorem prefix_append_cons_iff (h : c ∉ needle) :
    needle <+: text ++ c :: rest ↔ needle <+: text := by
  refine ⟨fun hneedle => ?_, fun hneedle => hneedle.trans (List.prefix_append _ _)⟩
  rcases List.prefix_or_prefix_of_prefix hneedle (List.prefix_append _ _) with hwithin | hbeyond
  · exact hwithin
  · obtain ⟨more, rfl⟩ := hbeyond
    rw [List.prefix_append_right_inj] at hneedle
    cases more with
    | nil => rw [List.append_nil]
    | cons d more =>
      obtain ⟨rfl, -⟩ := List.cons_prefix_cons.1 hneedle
      exact absurd (List.mem_append_right text List.mem_cons_self) h

theorem replaceAll_needle (hne : needle ≠ []) (replacement rest : List Char) :
    replaceAll needle replacement (needle ++ rest) =
      replacement ++ replaceAll needle replacement rest := by
  obtain ⟨d, tail, htext⟩ := List.exists_cons_of_ne_nil (List.append_ne_nil_of_left_ne_nil hne rest)
  have hstrip : stripStart? needle (d :: tail) = some rest := htext ▸ stripStart?_append needle rest
  rw [htext, replaceAll]
  split
  · next after hs =>
    obtain rfl := Option.some.inj (hs.symm.trans hstrip)
    rw [dif_neg hne]
  · next hs => rw [hstrip] at hs; cases hs

theorem replaceAll_cons (h : ¬ needle <+: c :: rest) (replacement : List Char) :
    replaceAll needle replacement (c :: rest) = c :: replaceAll needle replacement rest := by
  rw [replaceAll]
  split
  · next after hs => exact absurd ⟨after, (append_of_stripStart? hs).symm⟩ h
  · rfl

/-- A replacement takes place on both sides of a separator, and not across it. -/
theorem replaceAll_append_cons (hne : needle ≠ []) (h : c ∉ needle)
    (replacement before after : List Char) :
    replaceAll needle replacement (before ++ c :: after) =
      replaceAll needle replacement before ++ c :: replaceAll needle replacement after := by
  fun_induction replaceAll needle replacement before with
  | case1 =>
    refine replaceAll_cons (fun hstarts : needle <+: [] ++ c :: after => hne ?_) replacement
    exact List.prefix_nil.1 ((prefix_append_cons_iff h).1 hstarts)
  | case2 d rest rest' hs hn => exact absurd hn hne
  | case3 d rest rest' hs hn ih =>
    rw [append_of_stripStart? hs, List.append_assoc, replaceAll_needle hne, ih, List.append_assoc]
  | case4 d rest hs ih =>
    have hnot : ¬ needle <+: d :: rest := by
      rintro ⟨tail, he⟩
      rw [← he, stripStart?_append] at hs
      cases hs
    rw [List.cons_append, replaceAll_cons, ih, List.cons_append]
    rwa [← List.cons_append, prefix_append_cons_iff h]

theorem replaceAll_eq_self (h : ¬ needle <:+: text) (replacement : List Char) :
    replaceAll needle replacement text = text := by
  induction text with
  | nil => rw [replaceAll]
  | cons d rest ih =>
    rw [replaceAll_cons (fun hstarts => h hstarts.isInfix),
      ih fun hoccurs => h (List.infix_cons hoccurs)]

end Text

namespace ShortForms

open Text

variable {forms : List (String × String)} {c : Char}

/-- No token has the character in it, and it is no colon. -/
structure Separates (c : Char) (forms : List (String × String)) : Prop where
  /-- It is not what follows the tokens. -/
  colon : c ≠ ':'
  /-- It is in no token. -/
  token : ∀ form ∈ forms, c ∉ form.1.toList

theorem Separates.not_mem_needle (h : Separates c forms) {form : String × String}
    (hform : form ∈ forms) : c ∉ needle form := by
  rw [needle, List.mem_append, List.mem_singleton, not_or]
  exact ⟨h.token form hform, h.colon⟩

theorem Separates.resolveAll_append_cons (h : Separates c forms) (before after : List Char) :
    resolveAll forms (before ++ c :: after) =
      resolveAll forms before ++ c :: resolveAll forms after := by
  induction forms generalizing before after with
  | nil => rfl
  | cons form forms ih =>
    have hrest : Separates c forms :=
      ⟨h.colon, fun other hother => h.token other (List.mem_cons_of_mem form hother)⟩
    have hstep : resolveToken (before ++ c :: after) form =
        resolveToken before form ++ c :: resolveToken after form :=
      replaceAll_append_cons (needle_ne_nil form) (h.not_mem_needle List.mem_cons_self) _ _ _
    -- The token has left a text in which the character separates the same two parts, whatever
    -- it has brought in.
    rw [resolveAll, List.foldl_cons, hstep]
    exact ih hrest _ _

theorem resolveAll_eq_self {text : List Char} (h : ∀ form ∈ forms, ¬ needle form <:+: text) :
    resolveAll forms text = text := by
  induction forms with
  | nil => rfl
  | cons form forms ih =>
    rw [List.forall_mem_cons] at h
    have hstep : resolveToken text form = text := replaceAll_eq_self h.1 _
    rw [resolveAll, List.foldl_cons, hstep]
    exact ih h.2

/-- A character that is in no token, and is no colon, separates a text: what stands before it
    and what stands after it are resolved each on its own. A text in which no token stands with
    a colon after it stays as it is. -/
theorem resolve_apart (forms : Dictionary) :
    (∀ c, Separates c forms.entries → ∀ before after,
      resolve forms (before ++ c :: after) = resolve forms before ++ c :: resolve forms after) ∧
    ∀ text, (∀ form ∈ forms.entries, ¬ needle form <:+: text) → resolve forms text = text :=
  ⟨fun _ h => h.resolveAll_append_cons, fun _ h => resolveAll_eq_self h⟩

/-- An empty token that brings in a separator and the tokens of the other two, one of which is
    the end of the other and brings it in again. -/
def overlapping : Dictionary :=
  ((Dictionary.empty.insert "" "ab:,b:").insert "ab" "b:b:").insert "b" "1,ab:"

theorem resolve_overlapping :
    Separates ',' overlapping.entries ∧
    resolve overlapping ":,ab:".toList =
      resolve overlapping ":".toList ++ ',' :: resolve overlapping "ab:".toList ∧
    resolve overlapping ":".toList = "1,ab:1,ab:,1,ab:".toList ∧
    (∀ form ∈ overlapping.entries, ¬ needle form <:+: "ab,b".toList) ∧
    resolve overlapping "ab,b".toList = "ab,b".toList := by
  have hcomma : Separates ',' overlapping.entries := ⟨by decide, by decide +kernel⟩
  have hnone : ∀ form ∈ overlapping.entries, ¬ needle form <:+: "ab,b".toList := by decide +kernel
  exact ⟨hcomma, (resolve_apart overlapping).1 ',' hcomma ":".toList "ab:".toList,
    by decide +kernel, hnone, (resolve_apart overlapping).2 _ hnone⟩

end ShortForms

end PaperGraph
