/-!
# Outcomes

A reader that succeeds in several steps succeeds in each of them, and `Except.bind_eq_ok` takes the
steps apart. Two readers that word their errors differently can only be compared by what they
accept; that is what `toOption` keeps of an outcome, and it goes through every step.
-/

set_option autoImplicit false

namespace Provisioning

variable {ε ε' α β : Type}

/-! ## Success -/

@[simp] theorem Except.pure_eq_ok {a b : α} : (pure a : Except ε α) = .ok b ↔ a = b := by
  simp [pure, Except.pure]

@[simp] theorem Except.ok_bind (a : α) (f : α → Except ε β) : .ok a >>= f = f a := rfl

@[simp] theorem Except.map_ok (a : α) (f : α → β) : f <$> (.ok a : Except ε α) = .ok (f a) := rfl

theorem Except.bind_eq_ok {x : Except ε α} {f : α → Except ε β} {b : β} :
    x >>= f = .ok b ↔ ∃ a, x = .ok a ∧ f a = .ok b := by
  cases x <;> simp [bind, Except.bind]

theorem Except.map_eq_ok {x : Except ε α} {f : α → β} {b : β} :
    x.map f = .ok b ↔ ∃ a, x = .ok a ∧ f a = b := by
  cases x <;> simp [Except.map]

theorem Except.mapError_eq_ok {x : Except ε α} {f : ε → ε'} {a : α} :
    x.mapError f = .ok a ↔ x = .ok a := by
  cases x with
  | ok b =>
    constructor
    · intro h
      cases h
      rfl
    · intro h
      cases h
      rfl
  | error e =>
    constructor
    · intro h
      cases h
    · intro h
      cases h

/-! ## What is accepted -/

@[simp] theorem Except.toOption_ok (a : α) : (.ok a : Except ε α).toOption = some a := rfl

@[simp] theorem Except.toOption_error (e : ε) : (.error e : Except ε α).toOption = none := rfl

@[simp] theorem Except.toOption_pure (a : α) : (pure a : Except ε α).toOption = some a := rfl

@[simp] theorem Except.toOption_throw (e : ε) : (throw e : Except ε α).toOption = none := rfl

@[simp] theorem Except.toOption_bind (x : Except ε α) (f : α → Except ε β) :
    (x >>= f).toOption = x.toOption.bind fun a => (f a).toOption := by
  cases x <;> rfl

@[simp] theorem Except.toOption_map (x : Except ε α) (f : α → β) :
    (x.map f).toOption = x.toOption.map f := by
  cases x <;> rfl

@[simp] theorem Except.toOption_fmap (x : Except ε α) (f : α → β) :
    (f <$> x).toOption = x.toOption.map f := by
  cases x <;> rfl

@[simp] theorem Except.toOption_mapError (x : Except ε α) (f : ε → ε') :
    (x.mapError f).toOption = x.toOption := by
  cases x <;> rfl

theorem Except.toOption_eq_some_iff {x : Except ε α} {a : α} :
    x.toOption = some a ↔ x = .ok a := by
  cases x <;> simp

/-- Of errors nothing has to be decided. -/
instance Except.decidableEqOk [DecidableEq α] (x : Except ε α) (a : α) : Decidable (x = .ok a) :=
  decidable_of_iff (x.toOption = some a) Except.toOption_eq_some_iff

/-! ## Lists -/

theorem mapM_eq_ok_iff {f : α → Except ε β} {l : List α} {bs : List β} :
    l.mapM f = .ok bs ↔ l.map f = bs.map .ok := by
  induction l generalizing bs with
  | nil =>
    rw [List.mapM_nil, Except.pure_eq_ok]
    simp [eq_comm]
  | cons a l ih =>
    rw [List.mapM_cons]
    simp only [Except.bind_eq_ok, Except.pure_eq_ok, ih]
    constructor
    · rintro ⟨b, hb, bs', hbs', rfl⟩
      rw [List.map_cons, List.map_cons, hb, hbs']
    · intro h
      cases bs with
      | nil => cases h
      | cons b bs =>
        obtain ⟨hb, hbs⟩ := List.cons.inj h
        exact ⟨b, hb, bs, hbs, rfl⟩

@[simp] theorem mapM_some (l : List α) : l.mapM some = some l := by
  rw [show l.mapM some = some (l.map id) from List.mapM_pure, List.map_id]

/-- Putting the elements of a list in front of another one by one turns the list around. -/
@[simp] theorem foldlM_some_cons (l start : List α) :
    l.foldlM (fun seen a => some (a :: seen)) start = some (l.reverse ++ start) := by
  rw [show l.foldlM (fun seen a => some (a :: seen)) start =
    some (l.foldl (fun seen a => a :: seen) start) from List.foldlM_pure,
    List.foldl_flip_cons_eq_append']

theorem toOption_mapM (f : α → Except ε β) (l : List α) :
    (l.mapM f).toOption = l.mapM fun a => (f a).toOption := by
  induction l with
  | nil => rfl
  | cons a l ih => simp only [List.mapM_cons, Except.toOption_bind, ih]; rfl

theorem toOption_foldlM (f : β → α → Except ε β) (b : β) (l : List α) :
    (l.foldlM f b).toOption = l.foldlM (fun b a => (f b a).toOption) b := by
  induction l generalizing b with
  | nil => rfl
  | cons a l ih => simp only [List.foldlM_cons, Except.toOption_bind, ih]; rfl

/-- What each element has to pass, all of them have to. -/
theorem mapM_ite (p : α → Bool) (f : α → Option β) (l : List α) :
    (l.mapM fun a => if p a then f a else none) = if l.all p then l.mapM f else none := by
  induction l with
  | nil => rfl
  | cons a l ih =>
    rw [List.mapM_cons, List.mapM_cons, List.all_cons, ih]
    cases p a <;> cases l.all p <;> cases f a <;> rfl

theorem foldlM_ite (p : α → Bool) (f : β → α → Option β) (b : β) (l : List α) :
    (l.foldlM (fun b a => if p a then f b a else none) b) =
      if l.all p then l.foldlM f b else none := by
  induction l generalizing b with
  | nil => rfl
  | cons a l ih =>
    simp only [List.foldlM_cons, List.all_cons, ih]
    cases p a <;> cases l.all p <;> cases f b a <;> rfl

end Provisioning
