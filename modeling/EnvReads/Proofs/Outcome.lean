import EnvReads.Fault

/-!
# Computations that can fail

When a chain of steps succeeds, and when one step for each member of a list does.
-/

namespace Except

variable {ε α β : Type}

/-- A chain of two steps gives a result if the first gives one from which the second gives it. -/
theorem bind_eq_ok_iff {x : Except ε α} {f : α → Except ε β} {b : β} :
    x >>= f = .ok b ↔ ∃ a, x = .ok a ∧ f a = .ok b := by
  cases x <;> simp [bind, Except.bind]

/-- The second step matters only at what the first one gives. -/
theorem bind_congr_of_ok {x : Except ε α} {f g : α → Except ε β}
    (h : ∀ a, x = .ok a → f a = g a) : x >>= f = x >>= g := by
  cases x with
  | error e => rfl
  | ok a => exact h a rfl

/-- A result that is changed comes from a result. -/
theorem map_eq_ok_iff {x : Except ε α} {f : α → β} {b : β} :
    x.map f = .ok b ↔ ∃ a, x = .ok a ∧ f a = b := by
  cases x <;> simp [Except.map]

@[simp] theorem pure_eq_ok_iff {a b : α} : (pure a : Except ε α) = .ok b ↔ a = b := by
  simp [pure, Except.pure]

/-- A computation succeeds if it gives something. -/
theorem isOk_iff {x : Except ε α} : x.isOk ↔ ∃ a, x = .ok a := by
  cases x <;> simp [Except.toBool]

@[simp] theorem exists_eq_ok_iff {x : Except ε α} : (∃ a, x = .ok a) ↔ x.isOk :=
  isOk_iff.symm

/-- A chain of two steps succeeds if the second does at what the first gives. -/
@[simp] theorem isOk_bind_iff {x : Except ε α} {f : α → Except ε β} :
    (x >>= f).isOk ↔ ∃ a, x = .ok a ∧ (f a).isOk := by
  cases x <;> simp [bind, Except.bind, Except.toBool]

/-- A chain of two steps succeeds if the first does, and the second whatever the first gives. -/
theorem isOk_bind_of_forall {x : Except ε α} {f : α → Except ε β} (h : x.isOk)
    (later : ∀ a, x = .ok a → (f a).isOk) : (x >>= f).isOk := by
  obtain ⟨a, gives⟩ := isOk_iff.mp h
  exact isOk_bind_iff.mpr ⟨a, gives, later a gives⟩

@[simp] theorem isOk_ok {a : α} : (Except.ok a : Except ε α).isOk := rfl

/-- A fault is no success. -/
@[simp] theorem isOk_error {e : ε} : (Except.error e : Except ε α).isOk = false := rfl

@[simp] theorem isOk_pure {a : α} : (pure a : Except ε α).isOk := rfl

/-- Changing a result does not make a computation fail. -/
@[simp] theorem isOk_map {x : Except ε α} {f : α → β} : (x.map f).isOk = x.isOk := by
  cases x <;> rfl

@[simp] theorem mapError_ok {ε' : Type} {a : α} {f : ε → ε'} :
    (Except.ok a : Except ε α).mapError f = .ok a := rfl

@[simp] theorem mapError_error {ε' : Type} {e : ε} {f : ε → ε'} :
    (Except.error e : Except ε α).mapError f = .error (f e) := rfl

/-- Renaming a fault does not make it a success. -/
@[simp] theorem isOk_mapError {ε' : Type} {x : Except ε α} {f : ε → ε'} :
    (x.mapError f).isOk = x.isOk := by
  cases x <;> rfl

/-- One step for each member of a list succeeds if all of these steps do. -/
theorem isOk_mapM_iff {f : α → Except ε β} {xs : List α} :
    (xs.mapM f).isOk ↔ ∀ x ∈ xs, (f x).isOk := by
  induction xs with
  | nil => simp
  | cons x rest ih =>
      simp only [List.mapM_cons, isOk_bind_iff, isOk_pure, and_true, exists_and_right,
        exists_eq_ok_iff, ih, List.forall_mem_cons]

/-- What a computation gives when its fault is forgotten. -/
theorem toOption_eq_some_iff {x : Except ε α} {a : α} : x.toOption = some a ↔ x = .ok a := by
  cases x <;> simp [Except.toOption]

/-- What steps for the members of a list give comes from a member each. -/
theorem mem_of_mapM {f : α → Except ε β} {xs : List α} {ys : List β} (h : xs.mapM f = .ok ys)
    {y : β} : y ∈ ys ↔ ∃ x ∈ xs, f x = .ok y := by
  induction xs generalizing ys with
  | nil =>
      cases h
      simp
  | cons x rest ih =>
      rw [List.mapM_cons] at h
      obtain ⟨z, first, h⟩ := bind_eq_ok_iff.mp h
      obtain ⟨zs, later, h⟩ := bind_eq_ok_iff.mp h
      cases h
      simp [first, ih later, eq_comm]

/-- Lists that are found for the members of a list are joined from the first on. -/
theorem map_flatten_mapM_cons (f : α → Except ε (List β)) (x : α) (xs : List α) :
    ((x :: xs).mapM f).map List.flatten = do
      let here ← f x
      let more ← (xs.mapM f).map List.flatten
      return here ++ more := by
  rw [List.mapM_cons]
  cases f x with
  | error e => rfl
  | ok here => cases xs.mapM f <;> rfl

/-- What is in the lists that are found for the members of a list. -/
theorem mem_of_map_flatten_mapM {f : α → Except ε (List β)} {xs : List α} {ys : List β}
    (h : (xs.mapM f).map List.flatten = .ok ys) {y : β} :
    y ∈ ys ↔ ∃ x ∈ xs, ∃ here, f x = .ok here ∧ y ∈ here := by
  obtain ⟨parts, found, rfl⟩ := map_eq_ok_iff.mp h
  simp only [List.mem_flatten, mem_of_mapM found]
  constructor
  · rintro ⟨here, ⟨x, mem, part⟩, inside⟩
    exact ⟨x, mem, here, part, inside⟩
  · rintro ⟨x, mem, here, part, inside⟩
    exact ⟨here, ⟨x, mem, part⟩, inside⟩

/-- Whatever the computation gives has the property. -/
def Ensures (p : α → Prop) (x : Except ε α) : Prop :=
  ∀ a, x = .ok a → p a

namespace Ensures

variable {p : α → Prop} {q : β → Prop} {x : Except ε α}

/-- What the second step ensures from what the first one does. -/
theorem bind {f : α → Except ε β} (h : Ensures p x) (later : ∀ a, p a → Ensures q (f a)) :
    Ensures q (x >>= f) := by
  intro b gives
  obtain ⟨a, first, gives⟩ := bind_eq_ok_iff.mp gives
  exact later a (h a first) b gives

/-- What the second step ensures in any case. -/
theorem bind_of_forall {f : α → Except ε β} (later : ∀ a, Ensures q (f a)) :
    Ensures q (x >>= f) :=
  bind (p := fun _ => True) (fun _ _ => trivial) fun a _ => later a

/-- What holds of a changed result. -/
theorem map {f : α → β} (h : Ensures p x) (later : ∀ a, p a → q (f a)) : Ensures q (x.map f) := by
  intro b gives
  obtain ⟨a, first, rfl⟩ := map_eq_ok_iff.mp gives
  exact later a (h a first)

/-- What every step keeps holds of what a run of steps gives. -/
theorem foldlM {f : α → β → Except ε α} {xs : List β} {a : α} (start : p a)
    (step : ∀ x ∈ xs, ∀ a, p a → Ensures p (f a x)) : Ensures p (xs.foldlM f a) := by
  induction xs generalizing a with
  | nil =>
      rintro _ ⟨⟩
      exact start
  | cons x rest ih =>
      obtain ⟨first, later⟩ := List.forall_mem_cons.mp step
      rw [List.foldlM_cons]
      exact (first a start).bind fun b next => ih next later

theorem ok {a : α} (h : p a) : Ensures p (.ok a : Except ε α) := by
  rintro _ ⟨⟩
  exact h

/-- One step for each member of a list, where what the steps use and what they give adds up. -/
theorem mapM {γ δ : Type} {r : List γ → List δ → Prop} (nil : r [] [])
    (append : ∀ {as bs cs ds}, r as bs → r cs ds → r (as ++ cs) (bs ++ ds))
    {f : α → Except ε β} {uses : α → List γ} {below : β → List δ} {xs : List α}
    (each : ∀ x ∈ xs, Ensures (fun b => r (uses x) (below b)) (f x)) :
    Ensures (fun bs => r (xs.flatMap uses) (bs.flatMap below)) (xs.mapM f) := by
  induction xs with
  | nil => exact .ok nil
  | cons x rest ih =>
      obtain ⟨first, later⟩ := List.forall_mem_cons.mp each
      rw [List.mapM_cons]
      refine first.bind fun b here => (ih later).bind fun bs more => .ok ?_
      rw [List.flatMap_cons, List.flatMap_cons]
      exact append here more

theorem error {e : ε} : Ensures p (.error e) := by
  rintro _ ⟨⟩

end Ensures

end Except

namespace EnvReads.Fault

/-- A test that can fail picks members of a list if it fails for none of them. -/
theorem isOk_filter_iff {α : Type} {p : α → Except Fault Bool} {xs : List α} :
    (filter p xs).isOk ↔ ∀ x ∈ xs, (p x).isOk := by
  induction xs with
  | nil => simp [filter]
  | cons x rest ih =>
      simp only [filter, Except.isOk_bind_iff, Except.isOk_pure, and_true, exists_and_right,
        Except.exists_eq_ok_iff, ih, List.forall_mem_cons]

/-- A test that fails for no member of a list is an ordinary one. -/
theorem filter_of_forall_ok {α : Type} {p : α → Except Fault Bool} {test : α → Bool}
    {xs : List α} (h : ∀ x ∈ xs, p x = .ok (test x)) : filter p xs = .ok (xs.filter test) := by
  induction xs with
  | nil => rfl
  | cons x rest ih =>
      obtain ⟨here, later⟩ := List.forall_mem_cons.mp h
      rw [filter, here, ih later, List.filter_cons]
      rfl

/-- Members that do not pass can be left out. -/
theorem filter_append_of_false {α : Type} {p : α → Except Fault Bool} {xs : List α}
    (h : ∀ x ∈ xs, p x = .ok false) (ys : List α) : filter p (xs ++ ys) = filter p ys := by
  induction xs with
  | nil => rfl
  | cons x rest ih =>
      obtain ⟨here, later⟩ := List.forall_mem_cons.mp h
      rw [List.cons_append, filter, here, ih later]
      cases filter p ys <;> rfl

/-- What passes a test that can fail, if it fails for none. -/
theorem mem_filter_iff {α : Type} {p : α → Except Fault Bool} {xs ys : List α}
    (h : filter p xs = .ok ys) :
    (∀ x ∈ xs, ∃ b, p x = .ok b) ∧ ∀ x, x ∈ ys ↔ x ∈ xs ∧ p x = .ok true := by
  induction xs generalizing ys with
  | nil =>
      cases h
      simp
  | cons y rest ih =>
      rw [filter] at h
      obtain ⟨b, first, h⟩ := Except.bind_eq_ok_iff.mp h
      obtain ⟨more, later, h⟩ := Except.bind_eq_ok_iff.mp h
      obtain ⟨tested, member⟩ := ih later
      refine ⟨List.forall_mem_cons.mpr ⟨⟨b, first⟩, tested⟩, fun x => ?_⟩
      cases h
      cases b with
      | false =>
          simp only [Bool.false_eq_true, if_false, member, List.mem_cons]
          grind
      | true =>
          simp only [if_true, member, List.mem_cons]
          grind

end EnvReads.Fault
