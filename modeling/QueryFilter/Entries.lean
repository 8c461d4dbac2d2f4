/-!
# Entries in order

A dictionary that keeps its keys in the order in which they were first written: a list of keys with
values.  Writing to a key that is there keeps the place of the key; a new key goes to the end.

Every change is an `alter` of one key.  What it does to the keys (`keys_alter`), to the value found
at the key (`get?_alter_self`) and to the other values (`get?_alter_of_ne`) is all that is used of
it.
-/

namespace QueryFilter

/-- Keys with values, in order. -/
abbrev Entries (α : Type) := List (String × α)

namespace Entries

variable {α : Type}

/-- The keys, in order. -/
def keys (entries : Entries α) : List String :=
  entries.map Prod.fst

/-- The value at the first occurrence of a key. -/
def get? (entries : Entries α) (key : String) : Option α :=
  (entries.find? fun entry => entry.1 == key).map Prod.snd

/-- Rewrites the value at a key; the function sees the value that is there, if any. -/
def alter (entries : Entries α) (key : String) (f : Option α → α) : Entries α :=
  match entries with
  | [] => [(key, f none)]
  | (k, v) :: rest => if k = key then (k, f (some v)) :: rest else (k, v) :: alter rest key f

/-- Writes a value at a key. -/
def insert (entries : Entries α) (key : String) (value : α) : Entries α :=
  alter entries key fun _ => value

/-- Writes all values of `more`, one after the other. -/
def extend (entries more : Entries α) : Entries α :=
  more.foldl (fun entries entry => insert entries entry.1 entry.2) entries

/-- No key occurs twice. -/
def Distinct (entries : Entries α) : Prop :=
  (keys entries).Nodup

/-! ### The value at a key -/

/-- Nothing is found among no entries. -/
@[simp] theorem get?_nil (key : String) : get? ([] : Entries α) key = none := rfl

/-- A value is that of the first entry if this has the key, and else found behind it. -/
theorem get?_cons (k key : String) (v : α) (rest : Entries α) :
    get? ((k, v) :: rest) key = if k = key then some v else get? rest key := by
  by_cases h : k = key <;> simp [get?, h]

/-- The value of the first entry is found at its key. -/
@[simp] theorem get?_cons_self (key : String) (v : α) (rest : Entries α) :
    get? ((key, v) :: rest) key = some v := by
  simp [get?_cons]

/-- What is found at a key is an entry with this key. -/
theorem mem_of_get? {entries : Entries α} {key : String} {v : α} (h : get? entries key = some v) :
    (key, v) ∈ entries := by
  induction entries with
  | nil => simp at h
  | cons entry rest ih =>
    obtain ⟨k, w⟩ := entry
    rw [get?_cons] at h
    split at h
    · simp_all
    · exact List.mem_cons_of_mem _ (ih h)

/-- Nothing is found exactly at the keys that do not occur. -/
theorem get?_eq_none {entries : Entries α} {key : String} :
    get? entries key = none ↔ key ∉ keys entries := by
  induction entries with
  | nil => simp [keys]
  | cons entry rest ih =>
    obtain ⟨k, w⟩ := entry
    rw [get?_cons]
    by_cases h : k = key
    · simp [h, keys]
    · simpa [h, keys, Ne.symm h] using ih

/-! ### A change at a key -/

/-- At the key that is rewritten stands what the function makes of the value before. -/
@[simp] theorem get?_alter_self (entries : Entries α) (key : String) (f : Option α → α) :
    get? (alter entries key f) key = some (f (get? entries key)) := by
  induction entries with
  | nil => simp [alter]
  | cons entry rest ih =>
    obtain ⟨k, w⟩ := entry
    by_cases h : k = key <;> simp [alter, h, get?_cons, ih]

/-- Rewriting one key leaves the values at all others. -/
theorem get?_alter_of_ne {key other : String} (h : other ≠ key) (entries : Entries α)
    (f : Option α → α) : get? (alter entries key f) other = get? entries other := by
  induction entries with
  | nil => simp [alter, get?_cons, Ne.symm h]
  | cons entry rest ih =>
    obtain ⟨k, w⟩ := entry
    by_cases hk : k = key
    · simp [alter, hk, get?_cons, Ne.symm h]
    · simp [alter, hk, get?_cons, ih]

/-- A key that is there keeps its place, a new one goes to the end. -/
theorem keys_alter (entries : Entries α) (key : String) (f : Option α → α) :
    keys (alter entries key f) =
      if key ∈ keys entries then keys entries else keys entries ++ [key] := by
  induction entries with
  | nil => simp [alter, keys]
  | cons entry rest ih =>
    obtain ⟨k, w⟩ := entry
    by_cases hk : k = key
    · simp [alter, hk, keys]
    · have ih' := ih
      simp only [keys] at ih'
      by_cases hm : key ∈ keys rest
      · simp only [keys] at hm
        simp [alter, hk, keys, Ne.symm hk, ih', hm]
      · simp only [keys] at hm
        simp [alter, hk, keys, Ne.symm hk, ih', hm]

/-- Rewriting a key adds this key and no other. -/
theorem mem_keys_alter {entries : Entries α} {key other : String} {f : Option α → α} :
    other ∈ keys (alter entries key f) ↔ other ∈ keys entries ∨ other = key := by
  rw [keys_alter]
  split <;> simp_all

/-- A change leaves the keys distinct. -/
theorem Distinct.alter {entries : Entries α} (h : Distinct entries) (key : String)
    (f : Option α → α) : Distinct (alter entries key f) := by
  unfold Distinct at *
  rw [keys_alter]
  split
  · exact h
  · rename_i hk
    rw [List.nodup_append]
    refine ⟨h, by simp, ?_⟩
    intro a ha b hb
    simp only [List.mem_singleton] at hb
    subst hb
    exact fun heq => hk (heq ▸ ha)

/-- Keys that occur once still do after a value is written. -/
theorem Distinct.insert {entries : Entries α} (h : Distinct entries) (key : String) (value : α) :
    Distinct (insert entries key value) :=
  h.alter key _

/-- Among no entries no key occurs twice. -/
@[simp] theorem distinct_nil : Distinct ([] : Entries α) := by
  simp [Distinct, keys]

/-- Keys that occur once still do after any values are written. -/
theorem Distinct.extend {entries : Entries α} (h : Distinct entries) (more : Entries α) :
    Distinct (extend entries more) := by
  induction more generalizing entries with
  | nil => exact h
  | cons entry more ih => exact ih (h.insert _ _)

/-- Writing no values changes nothing. -/
@[simp] theorem extend_nil (entries : Entries α) : extend entries [] = entries := rfl

/-- Values are written from the first to the last. -/
@[simp] theorem extend_cons (entries : Entries α) (entry : String × α) (more : Entries α) :
    extend entries (entry :: more) = extend (insert entries entry.1 entry.2) more := rfl

end Entries

end QueryFilter
