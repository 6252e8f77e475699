import Mathlib.Data.List.Forall2

/-!
Computations that succeed, taken apart: what a later step was given by an earlier one.
-/
namespace Folio

variable {α β ε : Type}

theorem exists_of_bind_eq_ok {first : Except ε α} {next : α → Except ε β} {y : β}
    (h : first.bind next = .ok y) : ∃ x, first = .ok x ∧ next x = .ok y := by
  cases first with
  | error e => contradiction
  | ok x => exact ⟨x, rfl, h⟩

theorem exists_of_map_eq_ok {first : Except ε α} {f : α → β} {y : β}
    (h : first.map f = .ok y) : ∃ x, first = .ok x ∧ y = f x := by
  cases first with
  | error e => contradiction
  | ok x => exact ⟨x, rfl, (Except.ok.inj h).symm⟩

theorem eq_ok_of_mapError {ε' : Type} {x : Except ε α} {f : ε → ε'} {a : α}
    (h : x.mapError f = .ok a) : x = .ok a := by
  cases x with
  | error e => contradiction
  | ok b => exact congrArg Except.ok (Except.ok.inj h)

theorem exists_of_mem_mapM {f : α → Except ε β} {xs : List α} {ys : List β} {y : β}
    (h : xs.mapM f = .ok ys) (hy : y ∈ ys) : ∃ x ∈ xs, f x = .ok y := by
  induction xs generalizing ys with
  | nil =>
      obtain rfl := Except.ok.inj h
      exact absurd hy List.not_mem_nil
  | cons x xs ih =>
      rw [List.mapM_cons] at h
      obtain ⟨first, hfirst, h⟩ := exists_of_bind_eq_ok h
      obtain ⟨more, hmore, h⟩ := exists_of_bind_eq_ok h
      obtain rfl := Except.ok.inj h
      rcases List.mem_cons.1 hy with rfl | hlater
      · exact ⟨x, List.mem_cons_self, hfirst⟩
      · obtain ⟨z, hz, heq⟩ := ih hmore hlater
        exact ⟨z, List.mem_cons_of_mem x hz, heq⟩

/-- The results stand in the order of the values that they are made from. -/
theorem forall₂_of_mapM {f : α → Except ε β} {xs : List α} {ys : List β}
    (h : xs.mapM f = .ok ys) : List.Forall₂ (fun x y => f x = .ok y) xs ys := by
  induction xs generalizing ys with
  | nil =>
      obtain rfl := Except.ok.inj h
      exact .nil
  | cons x xs ih =>
      rw [List.mapM_cons] at h
      obtain ⟨first, hfirst, h⟩ := exists_of_bind_eq_ok h
      obtain ⟨more, hmore, h⟩ := exists_of_bind_eq_ok h
      obtain rfl := Except.ok.inj h
      exact .cons hfirst (ih hmore)

theorem exists_mapM {f : α → Except ε β} {xs : List α} (h : ∀ x ∈ xs, ∃ y, f x = .ok y) :
    ∃ ys, xs.mapM f = .ok ys := by
  induction xs with
  | nil => exact ⟨[], rfl⟩
  | cons x xs ih =>
      obtain ⟨first, hfirst⟩ := h x List.mem_cons_self
      obtain ⟨more, hmore⟩ := ih fun other hother => h other (List.mem_cons_of_mem x hother)
      rw [List.mapM_cons, hfirst, hmore]
      exact ⟨_, rfl⟩

/-- What is read of each value, where it is made of something else. -/
theorem mapM_map_eq_ok_map {γ : Type} {f : β → Except ε γ} {g : α → β} {k : α → γ} {xs : List α}
    (h : ∀ x ∈ xs, f (g x) = .ok (k x)) : (xs.map g).mapM f = .ok (xs.map k) := by
  induction xs with
  | nil => rfl
  | cons x xs ih =>
      obtain ⟨hfirst, hmore⟩ := List.forall_mem_cons.1 h
      rw [List.map_cons, List.mapM_cons, hfirst, ih hmore]
      rfl

/-- What each value is made from is read as the value again. -/
theorem mapM_map_eq_ok {f : β → Except ε α} {g : α → β} {xs : List α}
    (h : ∀ x ∈ xs, f (g x) = .ok x) : (xs.map g).mapM f = .ok xs := by
  rw [mapM_map_eq_ok_map h, List.map_id']

/-- Some values give some results. -/
theorem ne_nil_of_mapM {f : α → Except ε β} {xs : List α} {ys : List β} (hxs : xs ≠ [])
    (h : xs.mapM f = .ok ys) : ys ≠ [] := by
  obtain ⟨x, xs, rfl⟩ := List.exists_cons_of_ne_nil hxs
  rw [List.mapM_cons] at h
  obtain ⟨first, -, h⟩ := exists_of_bind_eq_ok h
  obtain ⟨more, -, h⟩ := exists_of_bind_eq_ok h
  obtain rfl := Except.ok.inj h
  exact List.cons_ne_nil first more

theorem isOk_map (x : Except ε α) (f : α → β) : (x.map f).isOk = x.isOk := by
  cases x <;> rfl

theorem exists_of_isOk {x : Except ε α} (h : x.isOk) : ∃ a, x = .ok a := by
  cases x with
  | error e => contradiction
  | ok a => exact ⟨a, rfl⟩

theorem eq_ok_of_toOption {x : Except ε α} {a : α} (h : x.toOption = some a) : x = .ok a := by
  cases x with
  | error e => contradiction
  | ok b => exact congrArg Except.ok (Option.some.inj h)

end Folio
