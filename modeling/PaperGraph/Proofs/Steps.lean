/-!
# Chains of steps

A chain of steps that can fail succeeds if every step does; otherwise it fails
as its first failing step does. The statements read such chains from their end.

* `bind_eq_ok_iff`: how a chain succeeds;
* `mapM_eq_error`, `exists_of_mapM_eq_error`: how a chain of like steps fails;
* `map_bind`, `mapError_bind`: what is made of a chain in the end is made of its last
  step, and what is made of its errors is made of those of every step;
* `Agree`: two chains fail in the same way or succeed with related results;
* `AgreeUpTo`: they may also fail in ways that are only related.
-/

namespace PaperGraph

variable {ε ζ α β γ δ : Type}

theorem map_eq_ok_iff {x : Except ε α} {f : α → β} {b : β} :
    x.map f = .ok b ↔ ∃ a, x = .ok a ∧ f a = b := by
  cases x with
  | error e => simp [Except.map]
  | ok a => simp [Except.map]

theorem bind_eq_ok_iff {x : Except ε α} {f : α → Except ε β} {b : β} :
    (x >>= f) = .ok b ↔ ∃ a, x = .ok a ∧ f a = .ok b := by
  cases x with
  | error e => simp [bind, Except.bind]
  | ok a => simp [bind, Except.bind]

/-- The first failing step of many decides how they fail. -/
theorem mapM_eq_error {f : α → Except ε β} {front back : List α} {a : α} {e : ε}
    (hfront : ∀ b ∈ front, ∃ c, f b = .ok c) (ha : f a = .error e) :
    (front ++ a :: back).mapM f = .error e := by
  induction front with
  | nil =>
    rw [List.nil_append, List.mapM_cons, ha]
    rfl
  | cons b front ih =>
    obtain ⟨⟨c, hc⟩, hfront⟩ := List.forall_mem_cons.1 hfront
    rw [List.cons_append, List.mapM_cons, hc, ih hfront]
    rfl

theorem exists_of_mapM_eq_error {f : α → Except ε β} {l : List α} {e : ε}
    (h : l.mapM f = .error e) : ∃ front a back, l = front ++ a :: back ∧
      (∀ b ∈ front, ∃ c, f b = .ok c) ∧ f a = .error e := by
  induction l with
  | nil => simp [pure, Except.pure] at h
  | cons a l ih =>
    rw [List.mapM_cons] at h
    cases ha : f a with
    | error e' =>
      rw [ha] at h
      exact ⟨[], a, l, rfl, by simp, by rw [ha, Except.error.inj h]⟩
    | ok c =>
      have hl : l.mapM f = .error e := by
        cases hl : l.mapM f with
        | error e' =>
          rw [ha, hl] at h
          exact h
        | ok cs => simp [ha, hl, bind, Except.bind, pure, Except.pure] at h
      obtain ⟨front, b, back, rfl, hfront, hb⟩ := ih hl
      exact ⟨a :: front, b, back, rfl, by simpa [ha] using hfront, hb⟩

theorem toOption_eq_some_iff {x : Except ε α} {a : α} : x.toOption = some a ↔ x = .ok a := by
  cases x with
  | error e => simp [Except.toOption]
  | ok b => simp [Except.toOption]

/-! ## What is made of a chain -/

theorem map_bind (x : Except ε α) (f : α → Except ε β) (g : β → γ) :
    (x >>= f).map g = x >>= fun a => (f a).map g := by
  cases x with
  | error e => rfl
  | ok a => rfl

theorem bind_map (x : Except ε α) (f : α → β) (g : β → Except ε γ) :
    x.map f >>= g = x >>= fun a => g (f a) := by
  cases x with
  | error e => rfl
  | ok a => rfl

theorem map_map (x : Except ε α) (f : α → β) (g : β → γ) :
    (x.map f).map g = x.map fun a => g (f a) := by
  cases x with
  | error e => rfl
  | ok a => rfl

theorem mapError_bind (x : Except ε α) (f : α → Except ε β) (g : ε → ζ) :
    (x >>= f).mapError g = x.mapError g >>= fun a => (f a).mapError g := by
  cases x with
  | error e => rfl
  | ok a => rfl

theorem mapError_map (x : Except ε α) (f : α → β) (g : ε → ζ) :
    (x.map f).mapError g = (x.mapError g).map f := by
  cases x with
  | error e => rfl
  | ok a => rfl

theorem mapError_mapError {η : Type} (x : Except ε α) (f : ε → ζ) (g : ζ → η) :
    (x.mapError f).mapError g = x.mapError fun e => g (f e) := by
  cases x with
  | error e => rfl
  | ok a => rfl

theorem mapError_eq_ok_iff {x : Except ε α} {f : ε → ζ} {a : α} :
    x.mapError f = .ok a ↔ x = .ok a := by
  cases x with
  | error e => exact iff_of_false nofun nofun
  | ok b => exact ⟨fun h => congrArg Except.ok (Except.ok.inj h),
      fun h => congrArg Except.ok (Except.ok.inj h)⟩

/-! ## Two chains -/

/-- Both fail with the same error, or both succeed, with results that are
    related by `R`. -/
inductive Agree (R : α → β → Prop) : Except ε α → Except ε β → Prop where
  /-- Both fail. -/
  | error (e : ε) : Agree R (.error e) (.error e)
  /-- Both succeed. -/
  | ok {a : α} {b : β} (h : R a b) : Agree R (.ok a) (.ok b)

namespace Agree

variable {R : α → β → Prop} {S : γ → δ → Prop} {x : Except ε α} {y : Except ε β}

theorem bind {f : α → Except ε γ} {g : β → Except ε δ} (h : Agree R x y)
    (hnext : ∀ a b, R a b → Agree S (f a) (g b)) : Agree S (x >>= f) (y >>= g) := by
  cases h with
  | error e => exact .error e
  | ok h => exact hnext _ _ h

theorem map {f : α → γ} {g : β → δ} (h : Agree R x y) (hmap : ∀ a b, R a b → S (f a) (g b)) :
    Agree S (x.map f) (y.map g) := by
  cases h with
  | error e => exact .error e
  | ok h => exact .ok (hmap _ _ h)

/-- More may be known of the results. -/
theorem imp {R' : α → β → Prop} (h : Agree R x y)
    (himp : ∀ a b, x = .ok a → y = .ok b → R a b → R' a b) : Agree R' x y := by
  cases h with
  | error e => exact .error e
  | ok h => exact .ok (himp _ _ rfl rfl h)

end Agree

/-- Both fail, with errors that are related by `E`, or both succeed, with results
    that are related by `R`. -/
inductive AgreeUpTo (E : ε → ζ → Prop) (R : α → β → Prop) : Except ε α → Except ζ β → Prop where
  /-- Both fail. -/
  | error {e : ε} {f : ζ} (h : E e f) : AgreeUpTo E R (.error e) (.error f)
  /-- Both succeed. -/
  | ok {a : α} {b : β} (h : R a b) : AgreeUpTo E R (.ok a) (.ok b)

namespace AgreeUpTo

variable {E : ε → ζ → Prop} {R : α → β → Prop} {S : γ → δ → Prop} {x : Except ε α}
  {y : Except ζ β}

theorem bind {f : α → Except ε γ} {g : β → Except ζ δ} (h : AgreeUpTo E R x y)
    (hnext : ∀ a b, x = .ok a → y = .ok b → R a b → AgreeUpTo E S (f a) (g b)) :
    AgreeUpTo E S (x >>= f) (y >>= g) := by
  cases h with
  | error h => exact .error h
  | ok h => exact hnext _ _ rfl rfl h

theorem map {f : α → γ} {g : β → δ} (h : AgreeUpTo E R x y)
    (hmap : ∀ a b, R a b → S (f a) (g b)) : AgreeUpTo E S (x.map f) (y.map g) := by
  cases h with
  | error h => exact .error h
  | ok h => exact .ok (hmap _ _ h)

end AgreeUpTo

end PaperGraph
