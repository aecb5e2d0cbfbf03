/-!
# Table — values under names

A table is a finite map from names to values, kept as a list of entries with distinct names.

* `Table.get?` is the view: two tables agree when they answer every name alike;
* `Table.insert` replaces the value of a known name in place and puts a new name at the end;
* `Table.erase` takes a name out;
* `Table.ofList` inserts pairs in order, so that the last value of a name is kept.

Each operation comes with its equation through `get?`.
-/

namespace Eligibility

/-- A finite map from names to values. -/
structure Table (α : Type) where
  entries : List (String × α)
  nodup_keys : (entries.map Prod.fst).Nodup

namespace Table

variable {α : Type}

/-- The value of a name in a list of entries. -/
def find? (name : String) : List (String × α) → Option α
  | [] => none
  | (key, value) :: rest => if key = name then some value else find? name rest

/-- The list of entries in which a name has the given value. -/
def put (name : String) (value : α) : List (String × α) → List (String × α)
  | [] => [(name, value)]
  | (key, old) :: rest =>
    if key = name then (name, value) :: rest else (key, old) :: put name value rest

theorem mem_keys_put {name other : String} {value : α} {entries : List (String × α)} :
    other ∈ (put name value entries).map Prod.fst ↔
      other = name ∨ other ∈ entries.map Prod.fst := by
  induction entries with
  | nil => simp [put]
  | cons entry rest ih =>
    obtain ⟨key, old⟩ := entry
    by_cases h : key = name
    · subst h
      simp [put]
    · simp only [put, h, if_false, List.map_cons, List.mem_cons, ih]
      constructor
      · rintro (h | h | h) <;> simp [h]
      · rintro (h | h | h) <;> simp [h]

theorem nodup_keys_put {name : String} {value : α} {entries : List (String × α)}
    (h : (entries.map Prod.fst).Nodup) : ((put name value entries).map Prod.fst).Nodup := by
  induction entries with
  | nil => simp [put]
  | cons entry rest ih =>
    obtain ⟨key, old⟩ := entry
    have hrest := List.nodup_cons.1 h
    by_cases heq : key = name
    · subst heq
      simpa [put] using h
    · simp only [put, heq, if_false, List.map_cons, List.nodup_cons]
      refine ⟨fun hmem => ?_, ih hrest.2⟩
      rcases mem_keys_put.1 hmem with h' | h'
      · exact heq h'
      · exact hrest.1 h'

/-! ## Operations -/

def empty : Table α :=
  ⟨[], List.nodup_nil⟩

/-- The value under a name. -/
def get? (t : Table α) (name : String) : Option α :=
  find? name t.entries

def contains (t : Table α) (name : String) : Bool :=
  (t.get? name).isSome

def insert (t : Table α) (name : String) (value : α) : Table α :=
  ⟨put name value t.entries, nodup_keys_put t.nodup_keys⟩

def erase (t : Table α) (name : String) : Table α :=
  ⟨t.entries.filter fun entry => entry.1 ≠ name,
    (List.filter_sublist.map Prod.fst).nodup t.nodup_keys⟩

def ofList (pairs : List (String × α)) : Table α :=
  pairs.foldl (fun t pair => t.insert pair.1 pair.2) empty

/-- The names, in the order of their first insertion. -/
def keys (t : Table α) : List String :=
  t.entries.map Prod.fst

def values (t : Table α) : List α :=
  t.entries.map Prod.snd

def size (t : Table α) : Nat :=
  t.entries.length

def isEmpty (t : Table α) : Bool :=
  t.entries.isEmpty

/-! ## The view of each operation -/

theorem find?_put {name other : String} {value : α} {entries : List (String × α)} :
    find? other (put name value entries) =
      if other = name then some value else find? other entries := by
  induction entries with
  | nil => simp [put, find?, eq_comm]
  | cons entry rest ih =>
    obtain ⟨key, old⟩ := entry
    by_cases heq : key = name
    · subst heq
      by_cases h : other = key <;> simp [put, find?, h, eq_comm]
    · by_cases h : key = other
      · subst h
        simp [put, find?, heq]
      · simp [put, find?, heq, h, ih]

theorem find?_filter_ne {name other : String} {entries : List (String × α)} :
    find? other (entries.filter fun entry => entry.1 ≠ name) =
      if other = name then none else find? other entries := by
  induction entries with
  | nil => simp [find?]
  | cons entry rest ih =>
    obtain ⟨key, old⟩ := entry
    by_cases heq : key = name
    · subst heq
      by_cases h : other = key <;> simp_all [find?, eq_comm]
    · by_cases h : key = other
      · subst h
        simp [find?, heq]
      · simpa [find?, heq, h] using ih

@[simp] theorem get?_empty (name : String) : (empty : Table α).get? name = none := rfl

theorem get?_insert (t : Table α) (name other : String) (value : α) :
    (t.insert name value).get? other = if other = name then some value else t.get? other :=
  find?_put

@[simp] theorem get?_insert_self (t : Table α) (name : String) (value : α) :
    (t.insert name value).get? name = some value := by
  simp [get?_insert]

theorem get?_insert_of_ne (t : Table α) {name other : String} (value : α) (h : other ≠ name) :
    (t.insert name value).get? other = t.get? other := by
  simp [get?_insert, h]

theorem get?_erase (t : Table α) (name other : String) :
    (t.erase name).get? other = if other = name then none else t.get? other :=
  find?_filter_ne

/-- An entry is in the table exactly when it is what its name answers. -/
theorem mem_entries_iff {t : Table α} {name : String} {value : α} :
    (name, value) ∈ t.entries ↔ t.get? name = some value := by
  obtain ⟨entries, hnodup⟩ := t
  simp only [get?]
  induction entries with
  | nil => simp [find?]
  | cons entry rest ih =>
    obtain ⟨key, old⟩ := entry
    have hrest := List.nodup_cons.1 hnodup
    by_cases h : key = name
    · subst h
      have hnot : (key, value) ∉ rest := fun hmem => hrest.1 (List.mem_map.2 ⟨_, hmem, rfl⟩)
      simp [find?, hnot, eq_comm]
    · have hne : ¬ name = key := fun heq => h heq.symm
      simp [find?, h, hne, ih hrest.2]

theorem mem_keys_iff {t : Table α} {name : String} :
    name ∈ t.keys ↔ t.contains name = true := by
  simp only [keys, contains, Option.isSome_iff_exists, List.mem_map]
  constructor
  · rintro ⟨⟨_, value⟩, hmem, rfl⟩
    exact ⟨value, mem_entries_iff.1 hmem⟩
  · rintro ⟨value, h⟩
    exact ⟨(name, value), mem_entries_iff.2 h, rfl⟩

end Table
end Eligibility
