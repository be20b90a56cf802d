import Mathlib.Data.List.Induction
import Mathlib.Data.List.Nodup
import PaperGraph.Proofs.Repetitions
import PaperGraph.Proofs.Sources

/-!
# Proper trees

A list of entries describes a tree of files if no location stands in it twice, if all names in
it can be names, and if every entry lies in a directory. A tree is the same then in whatever
order its entries stand, and it stays one when a file is written.

* `Tree.IsProper`: a tree whose entries describe one;
* `Tree.IsProper.get?_eq_some_iff`, `Tree.IsProper.directory_of_mem`: what is in it is there,
  and so are the directories on the way;
* `Tree.IsProper.get?_perm`: the order of its entries does not matter;
* `Tree.IsProper.of_write`: writing a file keeps a tree proper.
-/

namespace PaperGraph

open Text

namespace Location

variable {l : Location} {name : String}

@[simp]
theorem parent_child : (l.child name).parent = l := by
  rw [parent.eq_def]
  split
  · next h _ => simp [child] at h
  · next h _ => simp [child] at h
  · simp [child]

@[simp]
theorem child_inj {l' : Location} {name' : String} :
    l.child name = l'.child name' ↔ l = l' ∧ name = name' := by
  cases l
  cases l'
  simp [child, and_assoc]

theorem descend_concat {names : List String} :
    l.descend (names ++ [name]) = (l.descend names).child name := by
  simp [descend, child]

theorem descend_injective {names names' : List String} (h : l.descend names = l.descend names') :
    names = names' := by
  simpa [descend] using h

end Location

namespace Tree

variable {t t' : Tree} {p : Path} {k l : Location} {name : String} {entry : Entry}

/-- The entries of a tree are those of files and directories that lie in each other. -/
structure IsProper (t : Tree) : Prop where
  /-- There is one entry at a location. -/
  distinct : (t.entries.map Prod.fst).Nodup
  /-- Its location is told by names. -/
  named : ∀ e ∈ t.entries, e.1.names ≠ [] ∧ ∀ name ∈ e.1.names, Path.IsName name
  /-- It lies in a directory. -/
  grounded : ∀ e ∈ t.entries, t.get? e.1.parent = some .directory

instance : Decidable t.IsProper :=
  decidable_of_iff ((t.entries.map Prod.fst).Nodup ∧
      (∀ e ∈ t.entries, e.1.names ≠ [] ∧ ∀ name ∈ e.1.names, Path.IsName name) ∧
      ∀ e ∈ t.entries, t.get? e.1.parent = some .directory)
    ⟨fun ⟨distinct, named, grounded⟩ => ⟨distinct, named, grounded⟩,
      fun h => ⟨h.distinct, h.named, h.grounded⟩⟩

/-! ## Entries -/

namespace IsProper

theorem get?_eq_some_iff (ht : t.IsProper) (hl : l.names ≠ []) :
    t.get? l = some entry ↔ (l, entry) ∈ t.entries := by
  rw [get?, if_neg hl, lookup_eq_some_iff_mem ht.distinct]

theorem hasFile_iff (ht : t.IsProper) :
    t.HasFile l ↔ ∃ content, t.get? l = some (.file content) := by
  by_cases hl : l.names = []
  · refine iff_of_false ?_ ?_
    · rintro ⟨content, hmem⟩
      exact (ht.named _ hmem).1 hl
    · rw [get?, if_pos hl]
      simp
  · exact exists_congr fun content => (ht.get?_eq_some_iff hl).symm

/-- All that a location is below of is a directory. -/
theorem directory_of_mem (ht : t.IsProper) {names : List String} (hne : names ≠ [])
    (h : (l.descend names, entry) ∈ t.entries) : t.get? l = some .directory := by
  induction names using List.reverseRecOn generalizing entry with
  | nil => exact absurd rfl hne
  | append_singleton names last ih =>
    have hparent := ht.grounded _ h
    rw [Location.descend_concat, Location.parent_child] at hparent
    by_cases hnil : names = []
    · rw [hnil] at hparent
      simpa [Location.descend] using hparent
    · refine ih hnil ((ht.get?_eq_some_iff ?_).1 hparent)
      simp [Location.descend, hnil]

/-- The same entries in another order are those of the same tree. -/
theorem get?_perm (ht : t.IsProper) (h : t'.entries.Perm t.entries) (l : Location) :
    t'.get? l = t.get? l := by
  have hdistinct : (t'.entries.map Prod.fst).Nodup := (h.map _).nodup_iff.2 ht.distinct
  have hlookup : t'.entries.lookup l = t.entries.lookup l := Option.ext fun entry => by
    rw [lookup_eq_some_iff_mem hdistinct, lookup_eq_some_iff_mem ht.distinct, h.mem_iff]
  rw [get?, get?, hlookup]

theorem perm (ht : t.IsProper) (h : t'.entries.Perm t.entries) : t'.IsProper where
  distinct := (h.map _).nodup_iff.2 ht.distinct
  named e he := ht.named e (h.mem_iff.1 he)
  grounded e he := by rw [ht.get?_perm h, ht.grounded e (h.mem_iff.1 he)]

end IsProper

/-! ## Operations -/

/-- A change has no effect on the locations in a list but that a new one is added at the end. -/
theorem map_fst_go (entries : List (Location × Entry)) :
    (set.go l entry entries).map Prod.fst =
      if l ∈ entries.map Prod.fst then entries.map Prod.fst
      else entries.map Prod.fst ++ [l] := by
  induction entries with
  | nil => rfl
  | cons e entries ih =>
    obtain ⟨k, old⟩ := e
    rw [set.go]
    by_cases hk : k = l
    · rw [if_pos hk, if_pos (by simp [hk])]
      simp [hk]
    · rw [if_neg hk, List.map_cons, ih, List.map_cons]
      by_cases hl : l ∈ entries.map Prod.fst
      · rw [if_pos hl, if_pos (List.mem_cons_of_mem _ hl)]
      · have hnew : l ∉ k :: entries.map Prod.fst := fun hmem =>
          (List.mem_cons.1 hmem).elim (fun he => hk he.symm) hl
        rw [if_neg hl, if_neg hnew, List.cons_append]

/-- Something is made in a directory, by a name. -/
theorem exists_directory_of_target {target : Target} (h : t.target p = .ok target)
    (hl : target.location? = some l) :
    ∃ directory name, p.location = directory.child name ∧ Path.IsName name ∧
      t.get? directory = some .directory := by
  obtain ⟨before, last, hleads⟩ := exists_leads_of_target h hl
  refine ⟨_, String.ofList last, ?_, ⟨?_, ?_, ?_⟩, hleads.directory⟩
  · rw [← (location_of_target h hl).1, ← Option.some_inj, ← hl, hleads.location, Location.step,
      if_neg hleads.busy, if_neg hleads.down]
  · rw [String.toList_ofList]
    exact hleads.busy
  · rw [String.toList_ofList]
    exact hleads.down
  · -- The last piece is one of those that the separators leave.
    rw [String.toList_ofList]
    have hlast : last ∈ (splitAt '/' p.text.toList).reverse.dropWhile (· = []) := by
      rw [hleads.cut]
      exact List.mem_cons_self
    exact separator_not_mem (List.mem_reverse.1 ((List.dropWhile_sublist _).subset hlast))

namespace IsProper

/-- A new entry of a directory, or one in place of a file. -/
theorem set {directory : Location} (ht : t.IsProper) (hname : Path.IsName name)
    (hdirectory : t.get? directory = some .directory)
    (hfree : t.get? (directory.child name) ≠ some .directory) (entry : Entry) :
    (t.set (directory.child name) entry).IsProper := by
  have hkeeps (k : Location) (hk : t.get? k = some .directory) :
      (t.set (directory.child name) entry).get? k = some .directory := by
    have hne : k ≠ directory.child name := fun he => hfree (he ▸ hk)
    rw [get?_set hfree, if_neg hne, hk]
  -- An entry stands at a location that the tree knew, or at the new one.
  have hwhere {e : Location × Entry} (he : e ∈ (t.set (directory.child name) entry).entries) :
      (∃ old ∈ t.entries, old.1 = e.1) ∨ e.1 = directory.child name := by
    have hmem := List.mem_map_of_mem he (f := Prod.fst)
    rw [Tree.set, map_fst_go] at hmem
    split at hmem
    · exact .inl (List.mem_map.1 hmem)
    · rw [List.mem_append, List.mem_singleton] at hmem
      exact hmem.imp_left List.mem_map.1
  refine ⟨?_, fun e he => ?_, fun e he => ?_⟩
  · rw [Tree.set, map_fst_go]
    split
    · exact ht.distinct
    · next hnew => exact ht.distinct.append (List.nodup_singleton _) (by simpa using hnew)
  · obtain ⟨old, hold, hsame⟩ | hsame := hwhere he
    · rw [← hsame]
      exact ht.named old hold
    · rw [hsame]
      refine ⟨by simp [Location.child], List.forall_mem_append.2 ⟨?_, by simpa using hname⟩⟩
      by_cases hbase : directory.names = []
      · simp [hbase]
      · exact (ht.named _ ((ht.get?_eq_some_iff hbase).1 hdirectory)).2
  · obtain ⟨old, hold, hsame⟩ | hsame := hwhere he
    · rw [← hsame]
      exact hkeeps _ (ht.grounded old hold)
    · rw [hsame, Location.parent_child]
      exact hkeeps _ hdirectory

theorem of_write {content : Content} (ht : t.IsProper) (h : t.write p content = .ok t') :
    t'.IsProper := by
  obtain ⟨rfl, -, hfree⟩ := set_of_write h
  obtain ⟨target, htarget, h⟩ := bind_eq_ok_iff.1 h
  cases hl : target.location? with
  | none => simp [hl] at h
  | some l =>
    obtain ⟨directory, name, hchild, hname, hdirectory⟩ := exists_directory_of_target htarget hl
    rw [hchild] at hfree ⊢
    exact ht.set hname hdirectory hfree _

end IsProper

end Tree

end PaperGraph
