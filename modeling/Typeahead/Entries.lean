/-
# Entries by key

A list of keys with values in the order in which the keys first came. Writing to a
key that is there keeps its place, and erasing closes the gap.

Key definitions: `Entries.get?`, `Entries.insert`, `Entries.erase`.
Key theorems: `Entries.get?_insert`, `Entries.keys_insert`.
-/
namespace Typeahead

/-- Values by key, in the order of the keys' first coming. -/
abbrev Entries (α : Type) := List (String × α)

namespace Entries

variable {α : Type}

/-- The keys in order. -/
def keys (entries : Entries α) : List String := entries.map (·.1)

/-- The values in order. -/
def values (entries : Entries α) : List α := entries.map (·.2)

/-- The value of a key. -/
def get? : Entries α → String → Option α
  | [], _ => none
  | (k, v) :: rest, key => if k = key then some v else get? rest key

/-- The entries with a value for a key. A key that is there keeps its place. -/
def insert : Entries α → String → α → Entries α
  | [], key, value => [(key, value)]
  | (k, v) :: rest, key, value =>
    if k = key then (k, value) :: rest else (k, v) :: insert rest key value

/-- The entries without a key. -/
def erase (entries : Entries α) (key : String) : Entries α := entries.filter (·.1 ≠ key)

/-- The entries with those of another list written over them in order. -/
def merge (entries others : Entries α) : Entries α :=
  others.foldl (fun all entry => all.insert entry.1 entry.2) entries

/-- Reading after a write: the written value at its key, what was there elsewhere. -/
theorem get?_insert (entries : Entries α) (key other : String) (value : α) :
    (entries.insert key value).get? other = if key = other then some value else entries.get? other := by
  fun_induction insert entries key value <;> grind [get?]

/-- A write adds its key at the end unless it is there. -/
theorem keys_insert (entries : Entries α) (key : String) (value : α) :
    (entries.insert key value).keys
      = if key ∈ entries.keys then entries.keys else entries.keys ++ [key] := by
  fun_induction insert entries key value <;> grind [keys]

/-- Reading after an erasure: nothing at its key, what was there elsewhere. -/
theorem get?_erase (entries : Entries α) (key other : String) :
    (entries.erase key).get? other = if key = other then none else entries.get? other := by
  induction entries with
  | nil => simp [erase, get?]
  | cons entry rest ih =>
    obtain ⟨k, v⟩ := entry
    simp only [erase, List.filter_cons] at ih ⊢
    grind [get?]

end Entries
end Typeahead
