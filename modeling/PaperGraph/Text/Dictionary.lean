/-!
# Dictionaries

A dictionary gives texts to texts. Its entries stand in increasing order of
their keys, by code points, and no key has two: the type carries that
invariant (`Dictionary.ordered`), so that whoever goes through the entries
meets them in an order that does not depend on when they were put in.

* `Dictionary.insert`: puts a value at a key, in place of an earlier one;
* `Dictionary.get?`: the value at a key.
-/

namespace PaperGraph.Text

/-- Entries with `value` at `key`, the order of the keys being kept. -/
def insertOrdered (key value : String) : List (String × String) → List (String × String)
  | [] => [(key, value)]
  | (k, v) :: rest =>
    if key < k then (key, value) :: (k, v) :: rest
    else if key = k then (key, value) :: rest
    else (k, v) :: insertOrdered key value rest

theorem mem_insertOrdered {key value : String} {entries : List (String × String)}
    {e : String × String} (h : e ∈ insertOrdered key value entries) :
    e = (key, value) ∨ e ∈ entries := by
  induction entries with
  | nil => simp [insertOrdered] at h; exact .inl h
  | cons first rest ih =>
    obtain ⟨k, v⟩ := first
    simp only [insertOrdered] at h
    split at h
    · rcases List.mem_cons.1 h with h | h
      · exact .inl h
      · exact .inr h
    · split at h
      · rcases List.mem_cons.1 h with h | h
        · exact .inl h
        · exact .inr (List.mem_cons_of_mem _ h)
      · rcases List.mem_cons.1 h with h | h
        · exact .inr (h ▸ List.mem_cons_self)
        · rcases ih h with h | h
          · exact .inl h
          · exact .inr (List.mem_cons_of_mem _ h)

/-- Of two different texts one comes first. -/
private theorem lt_of_not_lt_of_ne {a b : String} (h : ¬ a < b) (hne : a ≠ b) : b < a := by
  rcases Decidable.em (b < a) with h' | h'
  · exact h'
  · exact absurd (String.le_antisymm (String.not_lt.1 h') (String.not_lt.1 h)) hne

theorem pairwise_insertOrdered (key value : String) {entries : List (String × String)}
    (h : entries.Pairwise fun a b => a.1 < b.1) :
    (insertOrdered key value entries).Pairwise fun a b => a.1 < b.1 := by
  induction entries with
  | nil => simp [insertOrdered]
  | cons first rest ih =>
    obtain ⟨k, v⟩ := first
    obtain ⟨hfirst, hrest⟩ := List.pairwise_cons.1 h
    simp only [insertOrdered]
    split
    · next hlt =>
      refine List.pairwise_cons.2 ⟨fun e he => ?_, h⟩
      rcases List.mem_cons.1 he with rfl | he
      · exact hlt
      · exact String.lt_trans hlt (hfirst e he)
    · next hlt =>
      split
      · next heq =>
        subst heq
        exact List.pairwise_cons.2 ⟨hfirst, hrest⟩
      · next hne =>
        refine List.pairwise_cons.2 ⟨fun e he => ?_, ih hrest⟩
        rcases mem_insertOrdered he with rfl | he
        · exact lt_of_not_lt_of_ne hlt hne
        · exact hfirst e he

/-- Texts given to texts, in increasing order of the keys. -/
structure Dictionary where
  /-- The entries. -/
  entries : List (String × String)
  /-- Every key comes before the keys of the later entries. -/
  ordered : entries.Pairwise fun a b => a.1 < b.1

namespace Dictionary

/-- The dictionary without entries. -/
def empty : Dictionary where
  entries := []
  ordered := .nil

instance : Inhabited Dictionary := ⟨empty⟩

/-- The dictionary with `value` at `key`, in place of an earlier value. -/
def insert (d : Dictionary) (key value : String) : Dictionary where
  entries := insertOrdered key value d.entries
  ordered := pairwise_insertOrdered key value d.ordered

/-- The value at `key`. -/
def get? (d : Dictionary) (key : String) : Option String :=
  d.entries.lookup key

/-- The number of entries. -/
def size (d : Dictionary) : Nat :=
  d.entries.length

end Dictionary

end PaperGraph.Text
