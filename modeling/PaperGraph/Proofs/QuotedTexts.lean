import Mathlib.Data.List.Forall2
import Mathlib.Data.Nat.Digits.Defs
import Mathlib.Tactic.Ring
import PaperGraph.Graph.NTriples
import PaperGraph.Proofs.Steps

/-!
# Quoted texts

The text between the quotes of a literal is made up of pieces, each of which
stands for one character: a character as it is, an escape of one letter, or an
escape by code point. Where a piece ends is told by its start, so that no text
can be cut into pieces in two ways. The digits of a code point are hexadecimal,
four after `u` and eight after `U`; but the first of them may be a plus sign,
which belongs to no digits.

* `WritesHex`: the number that is written in hexadecimal digits
  (`number?_eq_some_iff`);
* `Piece`, `Piece.Denotes`: the pieces, and the characters they stand for;
* `Spells`: a text up to its closing quote, cut into pieces (`Spells.unique`);
* `readQuoted_eq_ok_iff_spells`: what is read is what the pieces stand for, and
  nothing else can be read.
-/

namespace PaperGraph.NTriples

open Text

/-! ## Digits -/

/-- The character is the hexadecimal digit of a value, in either case. -/
def IsHexDigit (c : Char) (v : Nat) : Prop :=
  "0123456789abcdef".toList[v]? = some c ∨ "0123456789ABCDEF".toList[v]? = some c

instance (c : Char) (v : Nat) : Decidable (IsHexDigit c v) :=
  inferInstanceAs (Decidable (_ ∨ _))

/-- The number is written in hexadecimal digits. -/
def WritesHex (digits : List Char) (n : Nat) : Prop :=
  ∃ values, digits.Forall₂ IsHexDigit values ∧ n = Nat.ofDigits 16 values.reverse

variable {c : Char} {v n : Nat} {digits : List Char}

theorem toNat_lt_of_isHexDigit (h : IsHexDigit c v) : c.toNat < 128 := by
  have hall : ∀ d ∈ "0123456789abcdef".toList ++ "0123456789ABCDEF".toList, d.toNat < 128 := by
    simp
  exact hall c (List.mem_append.2 (h.imp List.mem_of_getElem? List.mem_of_getElem?))

theorem lt_of_isHexDigit (h : IsHexDigit c v) : v < 16 := by
  rcases h with h | h
  · exact (List.getElem?_eq_some_iff.1 h).1
  · exact (List.getElem?_eq_some_iff.1 h).1

theorem toNat_lt_of_digit? (h : digit? 16 c = some v) : c.toNat < 128 := by
  have hle (a : Char) : c ≤ a ↔ c.toNat ≤ a.toNat := Iff.rfl
  rw [digit?, Option.filter_eq_some_iff] at h
  obtain ⟨h, _⟩ := h
  split at h
  · next hdigit =>
    have hnine := (Char.isDigit_iff_toNat.1 hdigit).2
    exact hnine.trans_lt (by decide)
  · split at h
    · next hletter => exact ((hle 'f').1 hletter.2).trans_lt (by decide)
    · split at h
      · next hletter => exact ((hle 'F').1 hletter.2).trans_lt (by decide)
      · simp at h

theorem digit?_eq_some_iff : digit? 16 c = some v ↔ IsHexDigit c v := by
  -- Neither side holds of a character that is not in ASCII; the others can be looked at.
  have hall : ∀ n < 128, (∀ w ∈ digit? 16 (Char.ofNat n), IsHexDigit (Char.ofNat n) w) ∧
      ∀ w < 16, IsHexDigit (Char.ofNat n) w → digit? 16 (Char.ofNat n) = some w := by
    decide +kernel
  constructor
  · intro h
    have hc := (hall _ (toNat_lt_of_digit? h)).1
    rw [Char.ofNat_toNat] at hc
    exact hc v h
  · intro h
    have hc := (hall _ (toNat_lt_of_isHexDigit h)).2 v (lt_of_isHexDigit h)
    rw [Char.ofNat_toNat] at hc
    exact hc h

/-- Reading digits after a number shifts that number by as many digits. -/
theorem foldlM_digit?_eq_some_iff {start : Nat} :
    digits.foldlM (fun n c => (digit? 16 c).map (16 * n + ·)) start = some n ↔
      ∃ values, digits.Forall₂ IsHexDigit values ∧
        n = Nat.ofDigits 16 values.reverse + 16 ^ values.length * start := by
  induction digits generalizing start with
  | nil => simp [eq_comm]
  | cons c digits ih =>
    have hshift (v : Nat) (values : List Nat) :
        Nat.ofDigits 16 values.reverse + 16 ^ values.length * (16 * start + v) =
          Nat.ofDigits 16 (v :: values).reverse + 16 ^ (v :: values).length * start := by
      rw [List.reverse_cons, Nat.ofDigits_append, List.length_reverse, Nat.ofDigits_singleton,
        List.length_cons]
      ring
    rw [List.foldlM_cons]
    constructor
    · intro h
      obtain ⟨_, hfirst, hrest⟩ := Option.bind_eq_some_iff.1 h
      obtain ⟨v, hv, rfl⟩ := Option.map_eq_some_iff.1 hfirst
      obtain ⟨values, hvalues, rfl⟩ := ih.1 hrest
      exact ⟨v :: values, .cons (digit?_eq_some_iff.1 hv) hvalues, hshift v values⟩
    · rintro ⟨_, hvalues, rfl⟩
      obtain ⟨v, values, hv, hrest, rfl⟩ := List.forall₂_cons_left_iff.1 hvalues
      refine Option.bind_eq_some_iff.2 ⟨16 * start + v, ?_, ih.2 ⟨values, hrest, ?_⟩⟩
      · rw [digit?_eq_some_iff.2 hv, Option.map_some]
      · exact (hshift v values).symm

theorem number?_eq_some_iff (hne : digits ≠ []) :
    number? 16 digits = some n ↔ WritesHex digits n := by
  rw [number?, if_neg hne, foldlM_digit?_eq_some_iff]
  simp only [Nat.mul_zero, Nat.add_zero, WritesHex]

/-- Digits take a byte each. -/
theorem WritesHex.utf8Size_eq (h : WritesHex digits n) : utf8Size digits = digits.length := by
  obtain ⟨values, hvalues, -⟩ := h
  induction hvalues with
  | nil => rfl
  | cons hc _ ih =>
    have hone := Char.utf8Size_eq_one_iff.2 (Nat.le_of_lt_succ (toNat_lt_of_isHexDigit hc))
    rw [utf8Size_cons, hone, ih, List.length_cons, Nat.add_comm]

/-- A plus sign is no digit. -/
theorem WritesHex.head?_ne (h : WritesHex digits n) : digits.head? ≠ some '+' := by
  obtain ⟨values, hvalues, -⟩ := h
  cases hvalues with
  | nil => simp
  | @cons c v _ _ hc _ =>
    have hnone : ∀ v < 16, ¬ IsHexDigit '+' v := by decide +kernel
    rw [List.head?_cons, Ne, Option.some.injEq]
    rintro rfl
    exact hnone v (lt_of_isHexDigit hc) hc

/-- The character with a code point is the one that has it. -/
theorem charOf?_eq_some_iff : charOf? n = some c ↔ c.toNat = n := by
  rw [charOf?]
  constructor
  · intro h
    split at h
    · next hvalid =>
      obtain rfl := Option.some.inj h
      rw [Char.ofNat, dif_pos hvalid]
      rfl
    · simp at h
  · rintro rfl
    have hvalid : c.toNat.isValidChar := c.valid
    rw [if_pos hvalid, Char.ofNat_toNat]

theorem bind_charOf?_eq_some_iff (hne : digits ≠ []) :
    (number? 16 digits).bind charOf? = some c ↔ WritesHex digits c.toNat := by
  simp only [Option.bind_eq_some_iff, number?_eq_some_iff hne, charOf?_eq_some_iff]
  exact ⟨fun ⟨_, hwrites, hc⟩ => hc ▸ hwrites, fun hwrites => ⟨_, hwrites, rfl⟩⟩

theorem hexNumber?_of_ne {first : Char} (h : first ≠ '+') :
    hexNumber? (first :: digits) = number? 16 (first :: digits) := by
  rw [hexNumber?]
  exact fun _ hplus => h (List.cons.inj hplus).1

theorem unicodeEscape?_plus {width : Nat} (hwidth : 1 < width) :
    unicodeEscape? width ('+' :: digits) = some c ↔
      digits.length + 1 = width ∧ WritesHex digits c.toNat := by
  have hsize : utf8Size ('+' :: digits) = utf8Size digits + 1 := Nat.add_comm _ _
  rw [unicodeEscape?, Option.ite_none_right_eq_some, hsize]
  rcases eq_or_ne digits [] with rfl | hne
  · -- A plus sign alone is too short.
    simp only [utf8Size_nil, List.length_nil]
    omega
  · rw [show hexNumber? ('+' :: digits) = number? 16 digits from rfl, bind_charOf?_eq_some_iff hne]
    exact and_congr_left fun hdigits => by rw [hdigits.utf8Size_eq]

theorem unicodeEscape?_of_head?_ne {width : Nat} (hwidth : 1 < width)
    (hplus : digits.head? ≠ some '+') :
    unicodeEscape? width digits = some c ↔ digits.length = width ∧ WritesHex digits c.toNat := by
  rw [unicodeEscape?, Option.ite_none_right_eq_some]
  cases digits with
  | nil =>
    simp only [utf8Size_nil, List.length_nil]
    omega
  | cons first rest =>
    rw [hexNumber?_of_ne fun h => hplus (by rw [h, List.head?_cons]),
      bind_charOf?_eq_some_iff (List.cons_ne_nil first rest)]
    exact and_congr_left fun hdigits => by rw [hdigits.utf8Size_eq]

/-! ## Pieces -/

/-- The escapes of one letter, and what they stand for. -/
def shortEscapes : List (Char × Char) :=
  [('t', '\t'), ('b', '\x08'), ('n', '\n'), ('r', '\r'), ('f', '\x0c'), ('"', '"'), ('\'', '\''),
    ('\\', '\\')]

/-- The letters of escapes by code point, and the number of digits after them. -/
def codeWidths : List (Char × Nat) :=
  [('u', 4), ('U', 8)]

/-- A piece of a quoted text. -/
inductive Piece where
  /-- A character as it is. -/
  | plain (c : Char)
  /-- An escape of one letter. -/
  | short (letter : Char)
  /-- An escape by code point. -/
  | code (letter : Char) (digits : List Char)
  /-- An escape by code point, with a plus sign in place of the first digit. -/
  | signed (letter : Char) (digits : List Char)
deriving DecidableEq, Repr

namespace Piece

/-- How a piece is written. -/
def text : Piece → List Char
  | plain c => [c]
  | short letter => ['\\', letter]
  | code letter digits => '\\' :: letter :: digits
  | signed letter digits => '\\' :: letter :: '+' :: digits

/-- The character that a piece stands for. -/
inductive Denotes : Piece → Char → Prop where
  /-- Any character but a quotation mark and a backslash stands for itself. -/
  | plain {c : Char} (hquote : c ≠ '"') (hbackslash : c ≠ '\\') : Denotes (plain c) c
  /-- An escape of one letter stands for what the letter says. -/
  | short {letter c : Char} (h : (letter, c) ∈ shortEscapes) : Denotes (short letter) c
  /-- The digits are the code point of the character. -/
  | code {letter c : Char} {width : Nat} {digits : List Char}
      (hwidth : (letter, width) ∈ codeWidths) (hlength : digits.length = width)
      (hdigits : WritesHex digits c.toNat) : Denotes (code letter digits) c
  /-- The digits after the plus sign are the code point of the character. -/
  | signed {letter c : Char} {width : Nat} {digits : List Char}
      (hwidth : (letter, width) ∈ codeWidths) (hlength : digits.length + 1 = width)
      (hdigits : WritesHex digits c.toNat) : Denotes (signed letter digits) c

/-- Whether the piece has a plus sign among its digits. -/
def isSigned : Piece → Bool
  | signed .. => true
  | _ => false

end Piece

theorem shortEscape?_eq_some_iff {letter : Char} :
    shortEscape? letter = some c ↔ (letter, c) ∈ shortEscapes := by
  unfold shortEscape?
  split
  all_goals simp_all [shortEscapes, eq_comm]

variable {p : Piece} {letter : Char} {width : Nat} {pieces : List Piece}
  {text value rest : List Char}

theorem mem_codeWidths_iff : (letter, width) ∈ codeWidths ↔
    (letter = 'u' ∨ letter = 'U') ∧ width = if letter = 'u' then 4 else 8 := by
  simp only [codeWidths, List.mem_cons, Prod.mk.injEq, List.not_mem_nil, or_false]
  constructor
  · rintro (⟨rfl, rfl⟩ | ⟨rfl, rfl⟩)
    · exact ⟨.inl rfl, rfl⟩
    · exact ⟨.inr rfl, rfl⟩
  · rintro ⟨rfl | rfl, rfl⟩
    · exact .inl ⟨rfl, rfl⟩
    · exact .inr ⟨rfl, rfl⟩

theorem one_lt_of_mem_codeWidths (h : (letter, width) ∈ codeWidths) : 1 < width := by
  have hall : ∀ e ∈ codeWidths, 1 < e.2 := by decide
  exact hall _ h

/-! ## Reading a piece -/

theorem readQuoted_code (hwidth : (letter, width) ∈ codeWidths) (hlength : digits.length = width)
    (hc : unicodeEscape? width digits = some c) (tail : List Char) :
    readQuoted ('\\' :: letter :: (digits ++ tail)) =
      (readQuoted tail).map fun (value, rest) => (c :: value, rest) := by
  obtain ⟨hletter, rfl⟩ := mem_codeWidths_iff.1 hwidth
  rw [readQuoted, if_pos hletter]
  simp only [List.take_left' hlength, List.drop_left' hlength, hc]

/-- A piece is read as what it stands for, whatever follows. -/
theorem Piece.Denotes.readQuoted_append (h : p.Denotes c) (tail : List Char) :
    readQuoted (p.text ++ tail) =
      (readQuoted tail).map fun (value, rest) => (c :: value, rest) := by
  cases h with
  | plain hquote hbackslash =>
    rw [Piece.text, List.singleton_append, readQuoted]
    · exact hquote
    · exact fun h _ => hbackslash h
    · exact fun _ _ h _ => hbackslash h
  | @short letter _ hletter =>
    have hcode : ∀ e ∈ shortEscapes, ¬ (e.1 = 'u' ∨ e.1 = 'U') := by decide
    rw [Piece.text, List.cons_append, List.singleton_append, readQuoted, if_neg (hcode _ hletter)]
    simp only [shortEscape?_eq_some_iff.2 hletter]
  | code hwidth hlength hdigits =>
    refine readQuoted_code hwidth hlength ?_ tail
    exact (unicodeEscape?_of_head?_ne (one_lt_of_mem_codeWidths hwidth) hdigits.head?_ne).2
      ⟨hlength, hdigits⟩
  | @signed letter _ width digits hwidth hlength hdigits =>
    have hlonger : ('+' :: digits).length = width := hlength
    refine readQuoted_code hwidth hlonger ?_ tail
    exact (unicodeEscape?_plus (one_lt_of_mem_codeWidths hwidth)).2 ⟨hlength, hdigits⟩

/-- An escape by code point that is read is a piece. -/
theorem exists_piece_of_unicodeEscape? (hwidth : (letter, width) ∈ codeWidths)
    (hc : unicodeEscape? width digits = some c) :
    ∃ p : Piece, p.Denotes c ∧ p.text = '\\' :: letter :: digits := by
  have hone := one_lt_of_mem_codeWidths hwidth
  by_cases hplus : digits.head? = some '+'
  · obtain ⟨unsigned, rfl⟩ := List.head?_eq_some_iff.1 hplus
    obtain ⟨hlength, hdigits⟩ := (unicodeEscape?_plus hone).1 hc
    exact ⟨.signed letter unsigned, .signed hwidth hlength hdigits, rfl⟩
  · obtain ⟨hlength, hdigits⟩ := (unicodeEscape?_of_head?_ne hone hplus).1 hc
    exact ⟨.code letter digits, .code hwidth hlength hdigits, rfl⟩

/-! ## Cutting into pieces -/

/-- The pieces make up the text as far as its closing quote. They stand for the
    characters of the value, and the rest comes after the quote. -/
structure Spells (pieces : List Piece) (text value rest : List Char) : Prop where
  /-- Each piece stands for a character. -/
  denotes : pieces.Forall₂ Piece.Denotes value
  /-- There is nothing but the pieces before the quote. -/
  text_eq : text = pieces.flatMap Piece.text ++ '"' :: rest

theorem Spells.nil (rest : List Char) : Spells [] ('"' :: rest) [] rest :=
  ⟨.nil, rfl⟩

theorem Spells.cons {tail : List Char} (hp : p.Denotes c) (h : Spells pieces tail value rest) :
    Spells (p :: pieces) (p.text ++ tail) (c :: value) rest where
  denotes := .cons hp h.denotes
  text_eq := by rw [h.text_eq, List.flatMap_cons, List.append_assoc]

/-- A text of pieces is read as what they stand for. -/
theorem Spells.readQuoted_eq (h : Spells pieces text value rest) :
    readQuoted text = .ok (value, rest) := by
  obtain ⟨hdenotes, rfl⟩ := h
  induction hdenotes with
  | nil => simp [readQuoted]
  | cons hp _ ih =>
    rw [List.flatMap_cons, List.append_assoc, hp.readQuoted_append, ih]
    rfl

/-- What is read is made up of pieces. -/
theorem exists_spells (h : readQuoted text = .ok (value, rest)) :
    ∃ pieces, Spells pieces text value rest := by
  fun_induction readQuoted text generalizing value rest
  case case2 after =>
    obtain ⟨rfl, rfl⟩ := Prod.mk.inj (Except.ok.inj h)
    exact ⟨[], .nil after⟩
  case case4 letter after hletter width digits c hc ih =>
    obtain ⟨⟨value, _⟩, hread, he⟩ := map_eq_ok_iff.1 h
    obtain ⟨rfl, rfl⟩ := Prod.mk.inj he
    obtain ⟨pieces, hpieces⟩ := ih hread
    obtain ⟨p, hp, htext⟩ :=
      exists_piece_of_unicodeEscape? (mem_codeWidths_iff.2 ⟨hletter, rfl⟩) hc
    have hspells := hpieces.cons hp
    rw [htext, List.cons_append, List.cons_append, List.take_append_drop] at hspells
    exact ⟨p :: pieces, hspells⟩
  case case6 letter after _ c hc ih =>
    obtain ⟨⟨value, _⟩, hread, he⟩ := map_eq_ok_iff.1 h
    obtain ⟨rfl, rfl⟩ := Prod.mk.inj he
    obtain ⟨pieces, hpieces⟩ := ih hread
    exact ⟨.short letter :: pieces, hpieces.cons (.short (shortEscape?_eq_some_iff.1 hc))⟩
  case case8 c after hquote hend hmore ih =>
    obtain ⟨⟨value, _⟩, hread, he⟩ := map_eq_ok_iff.1 h
    obtain ⟨rfl, rfl⟩ := Prod.mk.inj he
    obtain ⟨pieces, hpieces⟩ := ih hread
    -- A backslash would start an escape, or end the text.
    have hbackslash : c ≠ '\\' := by
      intro hc
      cases after with
      | nil => exact hend hc rfl
      | cons letter after => exact hmore letter after hc rfl
    exact ⟨.plain c :: pieces, hpieces.cons (.plain hquote hbackslash)⟩
  -- Otherwise the text is refused.
  all_goals simp at h

/-- The piece that a text starts with, if it starts with one. -/
def firstPiece? : List Char → Option Piece
  | [] => none
  | '\\' :: letter :: rest =>
    match codeWidths.lookup letter with
    | none => some (.short letter)
    | some width =>
      if rest.head? = some '+' then some (.signed letter (rest.tail.take (width - 1)))
      else some (.code letter (rest.take width))
  | c :: _ => some (.plain c)

theorem Piece.Denotes.firstPiece?_append (h : p.Denotes c) (tail : List Char) :
    firstPiece? (p.text ++ tail) = some p := by
  have hlookup : ∀ e ∈ codeWidths, codeWidths.lookup e.1 = some e.2 := by decide
  cases h with
  | plain _ hbackslash =>
    rw [Piece.text, List.singleton_append, firstPiece?]
    exact fun _ _ h _ => hbackslash h
  | short hletter =>
    have hnone : ∀ e ∈ shortEscapes, codeWidths.lookup e.1 = none := by decide
    rw [Piece.text, List.cons_append, List.singleton_append, firstPiece?, hnone _ hletter]
  | @code letter _ _ digits hwidth hlength hdigits =>
    have hhead : (digits ++ tail).head? ≠ some '+' := by
      have hone := one_lt_of_mem_codeWidths hwidth
      rw [List.head?_append_of_ne_nil _ (List.ne_nil_of_length_pos (by omega))]
      exact hdigits.head?_ne
    rw [Piece.text, List.cons_append, List.cons_append, firstPiece?, hlookup _ hwidth]
    simp only [if_neg hhead, List.take_left' hlength]
  | @signed letter _ width digits hwidth hlength hdigits =>
    rw [Piece.text, List.cons_append, List.cons_append, List.cons_append, firstPiece?,
      hlookup _ hwidth]
    have htake : (digits ++ tail).take (width - 1) = digits := List.take_left' (by omega)
    simp only [List.head?_cons, if_pos, List.tail_cons, htake]

/-- No piece starts with the closing quote. -/
theorem Piece.Denotes.ne_quote (h : p.Denotes c) (tail tail' : List Char) :
    p.text ++ tail ≠ '"' :: tail' := by
  intro htext
  have hfirst := congrArg firstPiece? htext
  rw [h.firstPiece?_append] at hfirst
  obtain rfl : p = .plain '"' := Option.some.inj hfirst
  cases h with
  | plain hquote _ => exact hquote rfl

/-- A text is cut into pieces in one way only. -/
theorem Spells.unique {others : List Piece} {value' rest' : List Char}
    (h : Spells pieces text value rest) (h' : Spells others text value' rest') :
    pieces = others := by
  obtain ⟨hdenotes, rfl⟩ := h
  obtain ⟨hdenotes', htext⟩ := h'
  induction hdenotes generalizing others value' with
  | nil =>
    cases hdenotes' with
    | nil => rfl
    | cons hp _ =>
      rw [List.flatMap_cons, List.append_assoc] at htext
      exact absurd htext.symm (hp.ne_quote _ _)
  | cons hp _ ih =>
    rw [List.flatMap_cons, List.append_assoc] at htext
    cases hdenotes' with
    | nil => exact absurd htext (hp.ne_quote _ _)
    | cons hp' hdenotes' =>
      rw [List.flatMap_cons, List.append_assoc] at htext
      have hfirst := congrArg firstPiece? htext
      rw [hp.firstPiece?_append, hp'.firstPiece?_append] at hfirst
      obtain rfl := Option.some.inj hfirst
      rw [ih hdenotes' (List.append_cancel_left htext)]

/-! ## Reading -/

/-- The text is quoted, with code points written in nothing but digits. -/
def IsQuoted (text value rest : List Char) : Prop :=
  ∃ pieces, Spells pieces text value rest ∧ ∀ p ∈ pieces, ¬ p.isSigned

/-- A text is read if it is made up of pieces before a quote, as it is then in one
    way only, and comes to what they stand for. These are the quoted texts, and
    besides them those in which a plus sign stands for a digit. -/
theorem readQuoted_eq_ok_iff_spells (text value rest : List Char) :
    (readQuoted text = .ok (value, rest) ↔ ∃! pieces, Spells pieces text value rest) ∧
      (IsQuoted text value rest ↔ readQuoted text = .ok (value, rest) ∧
        ∀ pieces, Spells pieces text value rest → ∀ p ∈ pieces, ¬ p.isSigned) := by
  refine ⟨⟨fun h => ?_, fun ⟨_, h, _⟩ => h.readQuoted_eq⟩, fun ⟨_, h, hunsigned⟩ => ?_, ?_⟩
  · obtain ⟨pieces, hpieces⟩ := exists_spells h
    exact ⟨pieces, hpieces, fun _ hothers => hothers.unique hpieces⟩
  · exact ⟨h.readQuoted_eq, fun _ hothers => h.unique hothers ▸ hunsigned⟩
  · rintro ⟨h, hunsigned⟩
    obtain ⟨pieces, hpieces⟩ := exists_spells h
    exact ⟨pieces, hpieces, hunsigned pieces hpieces⟩

/-- A letter by its code point, with a plus sign. -/
def signedText : List Char := "\\u+041\"".toList

theorem spells_signedText : Spells [.signed 'u' ['0', '4', '1']] signedText ['A'] [] where
  denotes := by
    refine .cons (.signed (by decide) rfl ⟨[0, 4, 1], ?_, by decide⟩) .nil
    exact .cons (by decide) (.cons (by decide) (.cons (by decide) .nil))
  text_eq := by decide

/-- A text is read that is not quoted. -/
theorem readQuoted_signedText :
    readQuoted signedText = .ok (['A'], []) ∧ ∀ value rest, ¬ IsQuoted signedText value rest := by
  refine ⟨spells_signedText.readQuoted_eq, ?_⟩
  rintro value rest ⟨pieces, hpieces, hunsigned⟩
  obtain rfl := spells_signedText.unique hpieces
  exact hunsigned _ List.mem_cons_self rfl

/-- Half of a surrogate pair is no character. -/
example : readQuoted "\\t\\ud83d\\ude00\"".toList = .error (.badUnicode 'u' "d83d") := by
  decide +kernel

end PaperGraph.NTriples
