import Mathlib.Data.List.Induction
import QueryFilter.Proofs.Entries

/-!
# Joined entries

Two dictionaries are joined key by key (`joined`): the keys of the first come in their order, the
new keys of the second follow in theirs, and values at a shared key are combined.  With distinct
keys this determines the result, because keys in order and values at keys do (`eq_of_get?`).

Writing entries one after the other is joining where the later value stands (`extend_eq_joined`);
it does not matter which of three dictionaries are joined first (`extend_extend`).
-/

namespace QueryFilter.Entries

variable {α β : Type}

/-- The keys of the first entries, then the new keys of the second ones.  A function combines values
at a shared key. -/
def joined (combine : α → α → α) (a b : Entries α) : Entries α :=
  (a.map fun entry => (entry.1, ((get? b entry.1).map (combine entry.2)).getD entry.2)) ++
    b.filter fun entry => entry.1 ∉ keys a

/-! ### Keys and values -/

/-- Distinct keys in order, with what is found at them, determine the entries. -/
theorem eq_of_get? {a b : Entries α} (ha : Distinct a) (hkeys : keys a = keys b)
    (hget : ∀ key, get? a key = get? b key) : a = b := by
  induction a generalizing b with
  | nil => exact (List.map_eq_nil_iff.1 hkeys.symm).symm
  | cons entry a ih =>
    obtain ⟨k, v⟩ := entry
    cases b with
    | nil => exact absurd hkeys (List.cons_ne_nil _ _)
    | cons entry' b =>
      obtain ⟨k', w⟩ := entry'
      obtain ⟨rfl, hrest⟩ := List.cons.inj hkeys
      obtain ⟨hk, ha⟩ := List.nodup_cons.1 ha
      have hfirst := hget k
      rw [get?_cons_self, get?_cons_self] at hfirst
      obtain rfl := Option.some.inj hfirst
      refine congrArg _ (ih ha hrest fun key => ?_)
      by_cases heq : k = key
      · subst heq
        have hnone : k ∉ keys b := fun hmem => hk (hrest ▸ hmem)
        rw [get?_eq_none.2 hk, get?_eq_none.2 hnone]
      · have hother := hget key
        rwa [get?_cons, get?_cons, if_neg heq, if_neg heq] at hother

/-- A value in joined entries is that of the first part if this has the key. -/
theorem get?_append (a b : Entries α) (key : String) :
    get? (a ++ b) key = (get? a key).or (get? b key) := by
  induction a with
  | nil => rfl
  | cons entry a ih =>
    obtain ⟨k, v⟩ := entry
    rw [List.cons_append, get?_cons, get?_cons, ih]
    split <;> rfl

/-- Joined groups have the keys of the first part, and then the new ones of the second. -/
theorem keys_joined (combine : α → α → α) (a b : Entries α) :
    keys (joined combine a b) = keys a ++ (keys b).filter fun key => key ∉ keys a := by
  rw [joined, keys_append]
  congr 1
  · rw [keys, keys, List.map_map]
    rfl
  · change List.map Prod.fst (List.filter _ b) = List.filter _ (List.map Prod.fst b)
    rw [List.filter_map]
    rfl

/-- At a key stands what both have there, combined, or what one of them has. -/
theorem get?_joined (combine : α → α → α) (a b : Entries α) (key : String) :
    get? (joined combine a b) key = Option.merge combine (get? a key) (get? b key) := by
  -- the entries of the first part, with what the second one adds to them
  have hfirst : ∀ a : Entries α, get? (a.map fun entry =>
      (entry.1, ((get? b entry.1).map (combine entry.2)).getD entry.2)) key =
        (get? a key).map fun v => ((get? b key).map (combine v)).getD v := by
    intro a
    induction a with
    | nil => rfl
    | cons entry a ih =>
      obtain ⟨k, v⟩ := entry
      rw [List.map_cons, get?_cons, get?_cons, ih]
      by_cases heq : k = key
      · rw [if_pos heq, if_pos heq, heq]
        rfl
      · rw [if_neg heq, if_neg heq]
  -- and those that only the second part has
  have hsecond : ∀ b : Entries α, get? (b.filter fun entry => entry.1 ∉ keys a) key =
      if key ∈ keys a then none else get? b key := by
    intro b
    induction b with
    | nil => exact (ite_self _).symm
    | cons entry b ih =>
      obtain ⟨k, v⟩ := entry
      rw [get?_cons, List.filter_cons]
      by_cases heq : k = key <;> by_cases hk : k ∈ keys a <;> grind [get?_cons]
  rw [joined, get?_append, hfirst, hsecond]
  cases ha : get? a key with
  | none => rw [if_neg (get?_eq_none.1 ha), Option.merge_none_left, Option.map_none, Option.none_or]
  | some v => cases get? b key <;> rfl

/-! ### Writing as joining -/

/-- Rewriting key after key adds these keys and no others. -/
theorem mem_keys_foldl_alter (f : β → Option α → α) {more : Entries β} {entries : Entries α}
    {key : String} :
    key ∈ keys (more.foldl (fun written entry => alter written entry.1 (f entry.2)) entries) ↔
      key ∈ keys entries ∨ key ∈ keys more := by
  induction more generalizing entries with
  | nil => simp
  | cons entry more ih =>
    rw [List.foldl_cons, ih, mem_keys_alter, keys_cons, List.mem_cons, or_assoc]

/-- Whatever entries are written to, the new keys among those that are written come behind. -/
theorem keys_foldl_alter (f : β → Option α → α) (more : Entries β) (entries : Entries α) :
    keys (more.foldl (fun written entry => alter written entry.1 (f entry.2)) entries) =
      keys entries ++
        (keys (more.foldl (fun written entry => alter written entry.1 (f entry.2)) [])).filter
          fun key => key ∉ keys entries := by
  induction more using List.reverseRecOn with
  | nil => simp
  | append_singleton more entry ih =>
    rw [List.foldl_append, List.foldl_append, List.foldl_cons, List.foldl_cons, List.foldl_nil,
      List.foldl_nil, keys_alter, keys_alter]
    simp only [mem_keys_foldl_alter]
    by_cases hmore : entry.1 ∈ keys more
    · rw [if_pos (.inr hmore), if_pos (.inr hmore), ih]
    · by_cases hentries : entry.1 ∈ keys entries <;> simp [hmore, hentries, ih]

/-- Values at new keys are written behind the entries, in their own order. -/
theorem keys_extend {more : Entries α} (hmore : Distinct more) (entries : Entries α) :
    keys (extend entries more) = keys entries ++ (keys more).filter fun key => key ∉ keys entries :=
  calc keys (extend entries more)
      = keys entries ++ (keys (extend [] more)).filter fun key => key ∉ keys entries :=
        keys_foldl_alter (fun v _ => v) more entries
    _ = keys entries ++ (keys more).filter fun key => key ∉ keys entries := by
        rw [extend_nil_left hmore]

/-- Writing entries is joining them where the later value stands. -/
theorem extend_eq_joined {entries more : Entries α} (h : Distinct entries)
    (hmore : Distinct more) : extend entries more = joined (fun _ later => later) entries more := by
  refine eq_of_get? (h.extend more) ?_ fun key => ?_
  · rw [keys_extend hmore, keys_joined]
  · rw [get?_extend hmore, get?_joined]
    cases get? more key <;> cases get? entries key <;> rfl

/-- A further value may be written before or after other entries are written somewhere. -/
theorem extend_insert {entries more : Entries α} (h : Distinct entries) (hmore : Distinct more)
    (key : String) (v : α) :
    extend entries (insert more key v) = insert (extend entries more) key v := by
  refine eq_of_get? (h.extend _) ?_ fun other => ?_
  · rw [keys_extend (hmore.insert key v), insert, insert, keys_alter, keys_alter]
    simp only [keys_extend hmore]
    by_cases hm : key ∈ keys more <;> by_cases he : key ∈ keys entries <;> simp [hm, he]
  · rw [get?_extend (hmore.insert key v)]
    by_cases heq : other = key
    · subst heq
      rw [get?_insert_self, get?_insert_self, Option.some_or]
    · rw [get?_insert_of_ne heq, get?_insert_of_ne heq, get?_extend hmore]

/-- Entries may be written together before they are written somewhere. -/
theorem extend_extend {entries more : Entries α} (h : Distinct entries) (hmore : Distinct more)
    (last : Entries α) :
    extend entries (extend more last) = extend (extend entries more) last := by
  induction last generalizing more with
  | nil => rfl
  | cons entry last ih =>
    rw [extend_cons, extend_cons, ih (hmore.insert _ _), extend_insert h hmore]

end QueryFilter.Entries
