/-!
# Sorted tables

A table from texts to values is a list of entries in strictly ascending key order. Every
table the compiler shows (attributes, styles, definitions, lookups) is listed in that order,
so the order is kept by the operations and not restored when a table is printed. Texts are
compared code point by code point, which is also the byte order of their UTF-8 form.

The list form keeps the tables usable inside recursive types: the document tree holds
tables of itself.
-/

namespace PageCompiler

/-- A table from texts to values: its entries in ascending key order, no key twice. -/
abbrev Dict (α : Type) := List (String × α)

namespace Dict

variable {α β : Type}

/-- The value filed under a key. -/
def get? (d : Dict α) (key : String) : Option α := d.lookup key

/-- Whether a key has an entry. -/
def contains (d : Dict α) (key : String) : Bool := (get? d key).isSome

/-- File a value under a key, in place of an entry the key already has. -/
def insert : Dict α → String → α → Dict α
  | [], key, value => [(key, value)]
  | (k, v) :: rest, key, value =>
    if key < k then (key, value) :: (k, v) :: rest
    else if key = k then (key, value) :: rest
    else (k, v) :: insert rest key value

/-- File a value under a key unless the key has an entry. -/
def insertNew (d : Dict α) (key : String) (value : α) : Dict α :=
  if contains d key then d else insert d key value

/-- Drop the entry of a key. -/
def erase (d : Dict α) (key : String) : Dict α := d.filter (·.1 ≠ key)

/-- The keys, in ascending order. -/
def keys (d : Dict α) : List String := d.map (·.1)

/-- The values, in the order of their keys. -/
def values (d : Dict α) : List α := d.map (·.2)

/-- A table of the listed entries; of two entries of one key the later one stays. -/
def ofList (entries : List (String × α)) : Dict α :=
  entries.foldl (fun d entry => insert d entry.1 entry.2) []

/-- Both tables together; where they share a key, the second one decides. -/
def merge (base later : Dict α) : Dict α :=
  later.foldl (fun d entry => insert d entry.1 entry.2) base

/-- Change every value and keep the keys. -/
def mapValues (f : α → β) (d : Dict α) : Dict β := d.map fun entry => (entry.1, f entry.2)

/-- Change the value of one key, if it has one. -/
def modify (d : Dict α) (key : String) (f : α → α) : Dict α :=
  d.map fun entry => if entry.1 = key then (entry.1, f entry.2) else entry

@[simp] theorem get?_nil (key : String) : get? ([] : Dict α) key = none := rfl

theorem get?_cons (k : String) (v : α) (rest : Dict α) (key : String) :
    get? ((k, v) :: rest) key = if key = k then some v else get? rest key := by
  by_cases h : key = k
  · simp [get?, h]
  · have hb : (key == k) = false := by simpa using h
    simp [get?, List.lookup_cons, h, hb]

/-- Looking up the key just filed finds its value. -/
theorem get?_insert_self (d : Dict α) (key : String) (value : α) :
    get? (insert d key value) key = some value := by
  induction d with
  | nil => simp [insert, get?_cons]
  | cons entry rest ih =>
    obtain ⟨k, v⟩ := entry
    simp only [insert]
    split
    · simp [get?_cons]
    · split
      · simp [get?_cons]
      · rename_i hne
        simp [get?_cons, hne, ih]

/-- Filing under one key leaves every other key alone. -/
theorem get?_insert_of_ne (d : Dict α) {key other : String} (value : α) (h : other ≠ key) :
    get? (insert d key value) other = get? d other := by
  induction d with
  | nil => simp [insert, get?_cons, h]
  | cons entry rest ih =>
    obtain ⟨k, v⟩ := entry
    simp only [insert]
    split
    · simp [get?_cons, h]
    · split
      · rename_i heq
        subst heq
        simp [get?_cons, h]
      · simp [get?_cons, ih]

end Dict

end PageCompiler
