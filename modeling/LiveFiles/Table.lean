/-
Finite tables. Every registry of the library (cache entries, lock slots, running tasks, files, gates) is a `Table`: a
list of rows in the order in which their keys were first inserted, each key at most once. The view of a table is
`get?`; `get?_insert`, `get?_erase` and `get?_modify` say what each operation does to it, and `size` counts distinct
keys because the uniqueness of keys is part of the type.
-/

namespace LiveFiles

/-- rows in insertion order, no key twice -/
structure Table (κ α : Type) where
  rows : List (κ × α)
  nodup : (rows.map Prod.fst).Nodup

namespace Table

variable {κ α β : Type}

def empty : Table κ α := ⟨[], by simp⟩

instance : Inhabited (Table κ α) := ⟨empty⟩

instance : EmptyCollection (Table κ α) := ⟨empty⟩

def keys (t : Table κ α) : List κ := t.rows.map Prod.fst

def values (t : Table κ α) : List α := t.rows.map Prod.snd

def size (t : Table κ α) : Nat := t.rows.length

/-- change every value, keep the keys and their order -/
def map (f : κ → α → β) (t : Table κ α) : Table κ β :=
  ⟨t.rows.map fun r => (r.1, f r.1 r.2), by simpa [Function.comp_def] using t.nodup⟩

section Keyed

variable [DecidableEq κ]

/-- first value stored under a key in a list of rows -/
def find (k : κ) : List (κ × α) → Option α
  | [] => none
  | (k', a) :: rest => if k' = k then some a else find k rest

def get? (t : Table κ α) (k : κ) : Option α := find k t.rows

def contains (t : Table κ α) (k : κ) : Bool := (t.get? k).isSome

/-- replace the value under a key in place, or add a row at the end -/
def put (k : κ) (a : α) : List (κ × α) → List (κ × α)
  | [] => [(k, a)]
  | (k', b) :: rest => if k' = k then (k, a) :: rest else (k', b) :: put k a rest

theorem mem_map_fst_put (k : κ) (a : α) (rows : List (κ × α)) (x : κ) :
    x ∈ (put k a rows).map Prod.fst ↔ x = k ∨ x ∈ rows.map Prod.fst := by
  induction rows with
  | nil => simp [put]
  | cons r rest ih =>
    obtain ⟨k', b⟩ := r
    simp only [put]
    split
    · rename_i h
      subst h
      simp only [List.map_cons, List.mem_cons]
      grind
    · simp only [List.map_cons, List.mem_cons, ih]
      grind

theorem nodup_put (k : κ) (a : α) (rows : List (κ × α)) (h : (rows.map Prod.fst).Nodup) :
    ((put k a rows).map Prod.fst).Nodup := by
  induction rows with
  | nil => simp [put]
  | cons r rest ih =>
    obtain ⟨k', b⟩ := r
    simp only [List.map_cons, List.nodup_cons] at h
    simp only [put]
    split
    · rename_i hk
      subst hk
      simpa using h
    · rename_i hk
      simp only [List.map_cons, List.nodup_cons]
      refine ⟨?_, ih h.2⟩
      rw [mem_map_fst_put]
      rintro (e | e)
      · exact hk e
      · exact h.1 e

def insert (t : Table κ α) (k : κ) (a : α) : Table κ α :=
  ⟨put k a t.rows, nodup_put k a t.rows t.nodup⟩

omit [DecidableEq κ] in
theorem nodup_filter (p : κ × α → Bool) (rows : List (κ × α)) (h : (rows.map Prod.fst).Nodup) :
    ((rows.filter p).map Prod.fst).Nodup :=
  h.sublist ((List.filter_sublist (l := rows)).map Prod.fst)

def erase (t : Table κ α) (k : κ) : Table κ α :=
  ⟨t.rows.filter fun r => !decide (r.1 = k), nodup_filter _ _ t.nodup⟩

/-- apply a function to the value under a key, if there is one -/
def modify (t : Table κ α) (k : κ) (f : α → α) : Table κ α :=
  t.map fun k' a => if k' = k then f a else a

/-- the value under a key, or a default -/
def getD (t : Table κ α) (k : κ) (d : α) : α := (t.get? k).getD d

/-! ### What each operation does to the view -/

theorem find_put (k k' : κ) (a : α) (rows : List (κ × α)) :
    find k' (put k a rows) = if k = k' then some a else find k' rows := by
  induction rows with
  | nil => simp [put, find]
  | cons r rest ih =>
    obtain ⟨x, b⟩ := r
    simp only [put]
    by_cases h : x = k
    · subst h
      by_cases h' : x = k' <;> simp [find, h']
    · by_cases h' : x = k'
      · subst h'
        simp [find, h, Ne.symm h]
      · simp [find, h, h', ih]

@[simp] theorem get?_empty (k : κ) : (empty : Table κ α).get? k = none := rfl

theorem get?_insert (t : Table κ α) (k k' : κ) (a : α) :
    (t.insert k a).get? k' = if k = k' then some a else t.get? k' := find_put k k' a t.rows

theorem find_filter_ne (k k' : κ) (rows : List (κ × α)) :
    find k' (rows.filter fun r => !decide (r.1 = k)) = if k = k' then none else find k' rows := by
  induction rows with
  | nil => simp [find]
  | cons r rest ih =>
    obtain ⟨x, b⟩ := r
    by_cases h : x = k
    · subst h
      rw [List.filter_cons_of_neg (by simp), ih]
      by_cases h' : x = k' <;> simp [find, h']
    · rw [List.filter_cons_of_pos (by simpa using h)]
      by_cases h' : x = k'
      · subst h'
        simp [find, Ne.symm h]
      · simp [find, h', ih]

theorem get?_erase (t : Table κ α) (k k' : κ) :
    (t.erase k).get? k' = if k = k' then none else t.get? k' := find_filter_ne k k' t.rows

theorem find_map (f : κ → α → β) (k : κ) (rows : List (κ × α)) :
    find k (rows.map fun r => (r.1, f r.1 r.2)) = (find k rows).map (f k) := by
  induction rows with
  | nil => simp [find]
  | cons r rest ih =>
    obtain ⟨x, b⟩ := r
    by_cases h : x = k
    · subst h; simp [find]
    · simp [find, h, ih]

theorem get?_map (f : κ → α → β) (t : Table κ α) (k : κ) : (t.map f).get? k = (t.get? k).map (f k) :=
  find_map f k t.rows

theorem get?_modify (t : Table κ α) (k k' : κ) (f : α → α) :
    (t.modify k f).get? k' = if k = k' then (t.get? k').map f else t.get? k' := by
  rw [modify, get?_map]
  by_cases h : k = k'
  · subst h; simp
  · cases t.get? k' <;> simp [h, Ne.symm h]

/-! ### Rows -/

theorem find_eq_some_iff {k : κ} {a : α} {rows : List (κ × α)} (h : (rows.map Prod.fst).Nodup) :
    find k rows = some a ↔ (k, a) ∈ rows := by
  induction rows with
  | nil => simp [find]
  | cons r rest ih =>
    obtain ⟨x, b⟩ := r
    simp only [List.map_cons, List.nodup_cons, List.mem_map, Prod.exists, exists_and_right, exists_eq_right,
      not_exists] at h
    by_cases hx : x = k
    · subst hx
      have hn : (x, a) ∉ rest := h.1 a
      simp [find, hn, eq_comm]
    · simp [find, hx, Ne.symm hx, ih h.2]

theorem get?_eq_some_iff {t : Table κ α} {k : κ} {a : α} : t.get? k = some a ↔ (k, a) ∈ t.rows :=
  find_eq_some_iff t.nodup

theorem contains_eq_false_iff {t : Table κ α} {k : κ} : t.contains k = false ↔ t.get? k = none := by
  simp [contains]

end Keyed

end Table

end LiveFiles
