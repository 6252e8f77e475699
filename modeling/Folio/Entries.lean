/-!
Entries with keys, in the order in which they were set: setting a key keeps its place if it has
one. The value of a key is that of its first entry.
-/
namespace Folio.Entries

variable {α β : Type} [BEq α]

/-- The entries with one key set to a value: in its old place, or last. -/
def put (key : α) (value : β) : List (α × β) → List (α × β)
  | [] => [(key, value)]
  | (k, v) :: rest => if k == key then (k, value) :: rest else (k, v) :: put key value rest

theorem lookup_put_self [LawfulBEq α] (key : α) (value : β) (es : List (α × β)) :
    (put key value es).lookup key = some value := by
  induction es with
  | nil => simp [put]
  | cons e rest ih =>
      obtain ⟨k, v⟩ := e
      by_cases h : k = key
      · simp [put, h]
      · have h' : (key == k) = false := by simpa using fun e => h e.symm
        simp [put, h, List.lookup_cons, h', ih]

/-- The values of other keys stay. -/
theorem lookup_put_of_ne [LawfulBEq α] {key other : α} (h : other ≠ key) (value : β)
    (es : List (α × β)) : (put key value es).lookup other = es.lookup other := by
  have ne : (other == key) = false := by simpa using h
  induction es with
  | nil => simp only [put, List.lookup_cons, ne, List.lookup_nil]
  | cons e rest ih =>
      obtain ⟨k, v⟩ := e
      by_cases hk : k = key
      · subst hk
        simp only [put, beq_self_eq_true, if_true, List.lookup_cons, ne]
      · have hk' : (k == key) = false := by simpa using hk
        simp only [put, hk', Bool.false_eq_true, if_false, List.lookup_cons, ih]

/-- Entries with other keys stay, in order. -/
theorem filter_put [LawfulBEq α] {key : α} {p : α → Bool} (hkey : p key = false) (value : β)
    (es : List (α × β)) :
    (put key value es).filter (fun e => p e.1) = es.filter fun e => p e.1 := by
  induction es with
  | nil => simp [put, hkey]
  | cons e rest ih =>
      obtain ⟨k, v⟩ := e
      by_cases hk : k = key
      · subst hk
        simp [put, hkey]
      · have hk' : (k == key) = false := by simpa using hk
        rw [put, hk', if_neg Bool.false_ne_true, List.filter_cons, List.filter_cons, ih]

/-- To set a key to the value that it has changes nothing. -/
theorem put_eq_self [LawfulBEq α] {key : α} {value : β} {es : List (α × β)}
    (h : es.lookup key = some value) : put key value es = es := by
  induction es with
  | nil => contradiction
  | cons e rest ih =>
      obtain ⟨k, v⟩ := e
      by_cases hk : k = key
      · rw [List.lookup_cons, hk, beq_self_eq_true] at h
        obtain rfl := Option.some.inj h
        rw [put, hk, beq_self_eq_true, if_pos rfl]
      · have hne : (key == k) = false := by simpa using fun heq => hk heq.symm
        have hne' : (k == key) = false := by simpa using hk
        rw [List.lookup_cons, hne] at h
        rw [put, hne', ih h]
        rfl

end Folio.Entries
