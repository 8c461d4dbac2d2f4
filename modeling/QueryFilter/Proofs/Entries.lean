import QueryFilter.Entries

/-!
# The algebra of entries

How changes of entries combine: two changes at one key are one change (`alter_alter`), a change at a
new key puts an entry at the end (`alter_of_not_mem`), and writing entries that are all new puts
them at the end as they are (`extend_of_disjoint`).  In any case what is found afterwards is what
was written last (`get?_extend`).
-/

namespace QueryFilter.Entries

variable {α : Type}

/-! ### Keys -/

@[simp] theorem keys_nil : keys ([] : Entries α) = [] := rfl

@[simp] theorem keys_cons (entry : String × α) (entries : Entries α) :
    keys (entry :: entries) = entry.1 :: keys entries := rfl

/-- The keys of joined entries are the keys of both parts. -/
@[simp] theorem keys_append (a b : Entries α) : keys (a ++ b) = keys a ++ keys b :=
  List.map_append

/-- A key occurs if some entry has it. -/
theorem mem_keys {entries : Entries α} {key : String} :
    key ∈ keys entries ↔ ∃ v, (key, v) ∈ entries := by
  constructor
  · intro h
    obtain ⟨⟨k, v⟩, hmem, rfl⟩ := List.mem_map.1 h
    exact ⟨v, hmem⟩
  · rintro ⟨v, hmem⟩
    exact List.mem_map.2 ⟨(key, v), hmem, rfl⟩

/-- The key of an entry occurs. -/
theorem mem_keys_of_mem {entries : Entries α} {entry : String × α} (h : entry ∈ entries) :
    entry.1 ∈ keys entries :=
  List.mem_map.2 ⟨entry, h, rfl⟩

/-- A key that is there has a value. -/
theorem exists_get? {entries : Entries α} {key : String} (h : key ∈ keys entries) :
    ∃ v, get? entries key = some v := by
  cases hget : get? entries key with
  | none => exact absurd h (get?_eq_none.1 hget)
  | some v => exact ⟨v, rfl⟩

/-- A key at which a value is found occurs. -/
theorem mem_keys_of_get? {entries : Entries α} {key : String} {v : α}
    (h : get? entries key = some v) : key ∈ keys entries :=
  mem_keys_of_mem (mem_of_get? h)

/-- With distinct keys every entry is found. -/
theorem Distinct.get?_of_mem {entries : Entries α} (h : Distinct entries) {key : String} {v : α}
    (hmem : (key, v) ∈ entries) : get? entries key = some v := by
  induction entries with
  | nil => exact absurd hmem List.not_mem_nil
  | cons entry entries ih =>
    obtain ⟨k, w⟩ := entry
    obtain ⟨hk, hrest⟩ := List.nodup_cons.1 h
    rw [get?_cons]
    rcases List.mem_cons.1 hmem with heq | hmem
    · obtain ⟨rfl, rfl⟩ := Prod.mk.inj heq
      rw [if_pos rfl]
    · have hne : k ≠ key := by
        rintro rfl
        exact hk (mem_keys.2 ⟨v, hmem⟩)
      rw [if_neg hne]
      exact ih hrest hmem

/-! ### Changes -/

/-- Two changes at one key are one change. -/
theorem alter_alter (entries : Entries α) (key : String) (f g : Option α → α) :
    alter (alter entries key f) key g = alter entries key fun old => g (some (f old)) := by
  induction entries with
  | nil => simp [alter]
  | cons entry entries ih =>
    obtain ⟨k, v⟩ := entry
    by_cases hk : k = key
    · rw [alter, if_pos hk, alter, if_pos hk, alter, if_pos hk]
    · rw [alter, if_neg hk, alter, if_neg hk, ih, alter, if_neg hk]

/-- A change leaves the entries in front of its key as they are. -/
theorem alter_append {a : Entries α} {key : String} (h : key ∉ keys a) (b : Entries α)
    (f : Option α → α) : alter (a ++ b) key f = a ++ alter b key f := by
  induction a with
  | nil => rfl
  | cons entry a ih =>
    obtain ⟨k, v⟩ := entry
    rw [keys_cons, List.mem_cons, not_or] at h
    rw [List.cons_append, alter, if_neg (Ne.symm h.1), ih h.2, List.cons_append]

/-- A change at a new key puts an entry at the end. -/
theorem alter_of_not_mem {entries : Entries α} {key : String} (h : key ∉ keys entries)
    (f : Option α → α) : alter entries key f = entries ++ [(key, f none)] := by
  have halter := alter_append h [] f
  rwa [List.append_nil] at halter

/-- Rewriting a key leaves at least the entry of this key. -/
theorem alter_ne_nil (entries : Entries α) (key : String) (f : Option α → α) :
    alter entries key f ≠ [] := by
  cases entries with
  | nil => exact List.cons_ne_nil _ _
  | cons entry entries =>
    rw [alter]
    split <;> exact List.cons_ne_nil _ _

/-- Writing a value leaves at least the entry of its key. -/
theorem insert_ne_nil (entries : Entries α) (key : String) (v : α) : insert entries key v ≠ [] :=
  alter_ne_nil _ _ _

/-- The value that was written is found at its key. -/
theorem get?_insert_self (entries : Entries α) (key : String) (v : α) :
    get? (insert entries key v) key = some v :=
  get?_alter_self _ _ _

/-- Writing at one key leaves the values at all others. -/
theorem get?_insert_of_ne {key other : String} (h : other ≠ key) (entries : Entries α) (v : α) :
    get? (insert entries key v) other = get? entries other :=
  get?_alter_of_ne h _ _

/-! ### Many writes -/

/-- Joined values are written part by part. -/
theorem extend_append (entries a b : Entries α) :
    extend entries (a ++ b) = extend (extend entries a) b :=
  List.foldl_append

/-- New entries are put at the end as they are. -/
theorem extend_of_disjoint {entries more : Entries α} (hmore : Distinct more)
    (h : ∀ key ∈ keys more, key ∉ keys entries) : extend entries more = entries ++ more := by
  induction more generalizing entries with
  | nil => rw [extend_nil, List.append_nil]
  | cons entry more ih =>
    obtain ⟨key, v⟩ := entry
    obtain ⟨hkey, hrest⟩ := List.nodup_cons.1 hmore
    have hnew : key ∉ keys entries := h key List.mem_cons_self
    have hdisjoint : ∀ k ∈ keys more, k ∉ keys (entries ++ [(key, v)]) := by
      intro k hk hmem
      rw [keys_append, List.mem_append] at hmem
      rcases hmem with hmem | hmem
      · exact h k (List.mem_cons_of_mem _ hk) hmem
      · rw [keys_cons, keys_nil, List.mem_singleton] at hmem
        exact hkey (hmem ▸ hk)
    rw [extend_cons, insert, alter_of_not_mem hnew, ih hrest hdisjoint, List.append_assoc,
      List.singleton_append]

/-- Entries with keys that occur once are what is there after they are written to nothing. -/
theorem extend_nil_left {more : Entries α} (hmore : Distinct more) : extend [] more = more := by
  rw [extend_of_disjoint hmore fun _ _ => List.not_mem_nil, List.nil_append]

/-- The keys after writing are those from before and those of the values. -/
theorem mem_keys_extend {entries more : Entries α} {key : String} :
    key ∈ keys (extend entries more) ↔ key ∈ keys entries ∨ key ∈ keys more := by
  induction more generalizing entries with
  | nil => simp
  | cons entry more ih =>
    rw [extend_cons, ih, insert, mem_keys_alter, keys_cons, List.mem_cons]
    exact or_assoc

/-- Writing removes nothing. -/
theorem extend_ne_nil {entries : Entries α} (h : entries ≠ []) (more : Entries α) :
    extend entries more ≠ [] := by
  obtain ⟨entry, hentry⟩ := List.exists_mem_of_ne_nil entries h
  have hkey : entry.1 ∈ keys (extend entries more) :=
    mem_keys_extend.2 (.inl (mem_keys_of_mem hentry))
  intro hnil
  rw [hnil] at hkey
  exact absurd hkey List.not_mem_nil

/-- What is found after writing entries with distinct keys is what they hold, and where they hold
nothing what was there before. -/
theorem get?_extend {more : Entries α} (hmore : Distinct more) (entries : Entries α)
    (key : String) : get? (extend entries more) key = (get? more key).or (get? entries key) := by
  induction more generalizing entries with
  | nil => rfl
  | cons entry more ih =>
    obtain ⟨k, v⟩ := entry
    obtain ⟨hk, hrest⟩ := List.nodup_cons.1 hmore
    rw [extend_cons, ih hrest, get?_cons]
    by_cases heq : k = key
    · subst heq
      rw [get?_eq_none.2 hk, get?_insert_self, if_pos rfl]
      rfl
    · rw [get?_insert_of_ne (Ne.symm heq), if_neg heq]

/-- What stands among written entries is one of them or was there before. -/
theorem mem_insert {entries : Entries α} {key : String} {v : α} {entry : String × α}
    (h : entry ∈ insert entries key v) : entry = (key, v) ∨ entry ∈ entries := by
  rw [insert] at h
  induction entries with
  | nil => exact .inl (List.mem_singleton.1 h)
  | cons first entries ih =>
    obtain ⟨k, w⟩ := first
    rw [alter] at h
    split at h
    · rename_i hk
      rcases List.mem_cons.1 h with heq | h
      · exact .inl (hk ▸ heq)
      · exact .inr (List.mem_cons_of_mem _ h)
    · rcases List.mem_cons.1 h with heq | h
      · exact .inr (heq ▸ List.mem_cons_self)
      · exact (ih h).imp_right (List.mem_cons_of_mem _)

/-- Entries under other keys stay. -/
theorem mem_insert_of_ne {entries : Entries α} {key : String} {entry : String × α}
    (h : entry ∈ entries) (hne : entry.1 ≠ key) (v : α) : entry ∈ insert entries key v := by
  rw [insert]
  induction entries with
  | nil => exact absurd h List.not_mem_nil
  | cons first entries ih =>
    obtain ⟨k, w⟩ := first
    rw [alter]
    rcases List.mem_cons.1 h with rfl | h
    · rw [if_neg hne]
      exact List.mem_cons_self
    · split
      · exact List.mem_cons_of_mem _ h
      · exact List.mem_cons_of_mem _ (ih h)

/-- An entry after writing was there before, or it was written. -/
theorem mem_extend {entries more : Entries α} {entry : String × α}
    (h : entry ∈ extend entries more) : entry ∈ entries ∨ entry ∈ more := by
  induction more generalizing entries with
  | nil => exact .inl h
  | cons first more ih =>
    rcases ih h with h | h
    · rcases mem_insert h with heq | h
      · exact .inr (heq ▸ List.mem_cons_self)
      · exact .inl h
    · exact .inr (List.mem_cons_of_mem _ h)

/-! ### Many writes of many entries -/

/-- An entry after writing several parts was there before, or one of the parts has it. -/
theorem mem_foldl_extend {entries : Entries α} {parts : List (Entries α)} {entry : String × α}
    (h : entry ∈ parts.foldl extend entries) : entry ∈ entries ∨ ∃ part ∈ parts, entry ∈ part := by
  induction parts generalizing entries with
  | nil => exact .inl h
  | cons part parts ih =>
    rcases ih h with h | ⟨other, hother, h⟩
    · rcases mem_extend h with h | h
      · exact .inl h
      · exact .inr ⟨part, List.mem_cons_self, h⟩
    · exact .inr ⟨other, List.mem_cons_of_mem _ hother, h⟩

/-- Keys that occur once still do after several parts are written. -/
theorem distinct_foldl_extend {entries : Entries α} (h : Distinct entries)
    (parts : List (Entries α)) : Distinct (parts.foldl extend entries) := by
  induction parts generalizing entries with
  | nil => exact h
  | cons part parts ih => exact ih (h.extend part)

/-- The keys after writing several parts are those from before and those of the parts. -/
theorem mem_keys_foldl_extend {entries : Entries α} {parts : List (Entries α)} {key : String} :
    key ∈ keys (parts.foldl extend entries) ↔
      key ∈ keys entries ∨ ∃ part ∈ parts, key ∈ keys part := by
  induction parts generalizing entries with
  | nil => simp
  | cons part parts ih =>
    rw [List.foldl_cons, ih, mem_keys_extend, or_assoc]
    simp

/-- What is found after writing many entries is what the last of them hold. -/
theorem get?_foldl_extend_last {parts : List (Entries α)} (hparts : ∀ part ∈ parts, Distinct part)
    (entries : Entries α) (key : String) :
    get? (parts.foldl extend entries) key =
      (parts.reverse.findSome? fun part => get? part key).or (get? entries key) := by
  induction parts generalizing entries with
  | nil => rfl
  | cons part parts ih =>
    have hrest := ih (fun p hp => hparts p (List.mem_cons_of_mem _ hp)) (extend entries part)
    rw [List.foldl_cons, hrest, get?_extend (hparts part List.mem_cons_self), List.reverse_cons,
      List.findSome?_append, Option.or_assoc]
    simp

/-- What all parts that have a key agree on is found there. -/
theorem get?_foldl_extend {entries : Entries α} {parts : List (Entries α)}
    (hparts : ∀ part ∈ parts, Distinct part) {key : String} {v : α}
    (hagree : ∀ part ∈ parts, ∀ w, get? part key = some w → w = v)
    (h : get? entries key = some v ∨ ∃ part ∈ parts, key ∈ keys part) :
    get? (parts.foldl extend entries) key = some v := by
  rw [get?_foldl_extend_last hparts]
  cases hfind : parts.reverse.findSome? fun part => get? part key with
  | some w =>
    obtain ⟨part, hpart, hget⟩ := List.exists_of_findSome?_eq_some hfind
    rw [hagree part (List.mem_reverse.1 hpart) w hget, Option.some_or]
  | none =>
    rw [Option.none_or]
    apply h.resolve_right
    rintro ⟨part, hpart, hkey⟩
    have hnone := List.findSome?_eq_none_iff.1 hfind part (List.mem_reverse.2 hpart)
    exact absurd hkey (get?_eq_none.1 hnone)

/-- Entries are written one by one as all at once. -/
theorem foldl_extend_singletons (entries more : Entries α) :
    (more.map fun entry => [entry]).foldl extend entries = extend entries more := by
  induction more generalizing entries with
  | nil => rfl
  | cons entry more ih =>
    rw [List.map_cons, List.foldl_cons, ih, extend_cons, extend_cons, extend_nil]

/-! ### Leaving a key out -/

/-- The entries under other keys. -/
def without (key : String) (entries : Entries α) : Entries α :=
  entries.filter fun entry => entry.1 != key

/-- An entry with the key is left out. -/
theorem without_cons_self (key : String) (v : α) (entries : Entries α) :
    without key ((key, v) :: entries) = without key entries :=
  List.filter_cons_of_neg (by simp)

/-- An entry with another key stays. -/
theorem without_cons_of_ne {key k : String} (h : k ≠ key) (v : α) (entries : Entries α) :
    without key ((k, v) :: entries) = (k, v) :: without key entries :=
  List.filter_cons_of_pos (by simp [h])

/-- A key is left out of joined entries by leaving it out of both parts. -/
theorem without_append (key : String) (a b : Entries α) :
    without key (a ++ b) = without key a ++ without key b :=
  List.filter_append _ _

/-- The order in which two keys are left out does not matter. -/
theorem without_comm (a b : String) (entries : Entries α) :
    without a (without b entries) = without b (without a entries) := by
  rw [without, without, without, without, List.filter_filter, List.filter_filter]
  exact List.filter_congr fun entry _ => Bool.and_comm _ _

/-- Without a key it cannot be told that this key was rewritten. -/
theorem without_alter (entries : Entries α) (key : String) (f : Option α → α) :
    without key (alter entries key f) = without key entries := by
  induction entries with
  | nil => simp [alter, without]
  | cons entry entries ih =>
    obtain ⟨k, v⟩ := entry
    by_cases hk : k = key
    · simp [alter, without, hk]
    · rw [without, without] at ih
      simp [alter, without, hk, ih]

/-- Without a key it cannot be told that its value was written. -/
theorem without_insert (entries : Entries α) (key : String) (v : α) :
    without key (insert entries key v) = without key entries :=
  without_alter _ _ _

/-- Leaving out a key keeps all others. -/
theorem mem_keys_without {key other : String} (h : other ≠ key) {entries : Entries α} :
    other ∈ keys (without key entries) ↔ other ∈ keys entries := by
  rw [mem_keys, mem_keys]
  refine exists_congr fun v => ?_
  rw [without, List.mem_filter]
  exact and_iff_left (bne_iff_ne.2 h)

/-- Entries that a function skips may be left out before. -/
theorem filterMap_without {β : Type} {key : String} {f : String × α → Option β}
    (h : ∀ v, f (key, v) = none) (entries : Entries α) :
    (without key entries).filterMap f = entries.filterMap f := by
  induction entries with
  | nil => rfl
  | cons entry entries ih =>
    obtain ⟨k, v⟩ := entry
    by_cases hk : k = key
    · subst hk
      rw [without_cons_self, ih, List.filterMap_cons_none (h v)]
    · rw [without_cons_of_ne hk, List.filterMap_cons, List.filterMap_cons, ih]

/-- Other keys have what they had. -/
theorem get?_without {key other : String} (h : other ≠ key)
    (entries : Entries α) : get? (without key entries) other = get? entries other := by
  induction entries with
  | nil => rfl
  | cons entry entries ih =>
    obtain ⟨k, v⟩ := entry
    by_cases hk : k = key
    · subst hk
      rw [without_cons_self, ih, get?_cons, if_neg h.symm]
    · rw [without_cons_of_ne hk, get?_cons, get?_cons, ih]

end QueryFilter.Entries
