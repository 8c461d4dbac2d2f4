import Mathlib.Data.List.TakeWhile
import QueryFilter.Text.Blank
import QueryFilter.Text.Split

/-!
# Splitting what was joined, trimming what has no blanks

Texts without a separator that are joined with it are split into the same texts again
(`piecesAt_joinWith`).  Trimming only takes away blanks at the ends (`trimChars_of_ends`), and a
text begins and ends as one of its pieces does, if not with the separator (`exists_piece_head`,
`exists_piece_last`).
-/

namespace QueryFilter.Text

/-! ### Pieces -/

/-- A text without a separator is its own single piece. -/
theorem piecesAt_of_not_mem {sep : Char} {cs : List Char} (h : sep ∉ cs) :
    piecesAt sep cs = [cs] := by
  induction cs with
  | nil => rfl
  | cons c cs ih =>
    rw [List.mem_cons, not_or] at h
    rw [piecesAt, if_neg (Ne.symm h.1), ih h.2]

/-- The first piece ends at the first separator. -/
theorem piecesAt_append {sep : Char} {before : List Char} (h : sep ∉ before) (after : List Char) :
    piecesAt sep (before ++ sep :: after) = before :: piecesAt sep after := by
  induction before with
  | nil => rw [List.nil_append, piecesAt, if_pos rfl]
  | cons c cs ih =>
    rw [List.mem_cons, not_or] at h
    rw [List.cons_append, piecesAt, if_neg (Ne.symm h.1), ih h.2]

/-- The separator stands between the first piece and the others. -/
theorem toList_joinWith_cons_cons (sep s t : String) (rest : List String) :
    (joinWith sep (s :: t :: rest)).toList =
      s.toList ++ (sep.toList ++ (joinWith sep (t :: rest)).toList) := by
  rw [joinWith, String.toList_append, String.toList_append, List.append_assoc]
  simp

/-- Splitting is the inverse of joining. -/
theorem piecesAt_joinWith {sep : Char} {parts : List (List Char)} (hne : parts ≠ [])
    (h : ∀ part ∈ parts, sep ∉ part) :
    piecesAt sep (joinWith (String.singleton sep) (parts.map String.ofList)).toList = parts := by
  induction parts with
  | nil => exact absurd rfl hne
  | cons part parts ih =>
    have hpart : sep ∉ part := h part List.mem_cons_self
    cases parts with
    | nil => rw [List.map_singleton, joinWith, String.toList_ofList, piecesAt_of_not_mem hpart]
    | cons next parts =>
      have hrest := ih (List.cons_ne_nil _ _) fun p hp => h p (List.mem_cons_of_mem _ hp)
      rw [List.map_cons, List.map_cons, toList_joinWith_cons_cons, String.toList_ofList,
        String.toList_singleton, List.singleton_append, piecesAt_append hpart]
      rw [List.map_cons] at hrest
      rw [hrest]

/-- No piece has the separator in it. -/
theorem not_mem_of_mem_piecesAt {sep : Char} {cs piece : List Char}
    (h : piece ∈ piecesAt sep cs) : sep ∉ piece := by
  induction cs generalizing piece with
  | nil =>
    rw [piecesAt, List.mem_singleton] at h
    rw [h]
    exact List.not_mem_nil
  | cons c cs ih =>
    rw [piecesAt] at h
    split at h
    · rcases List.mem_cons.1 h with rfl | h
      · exact List.not_mem_nil
      · exact ih h
    · rename_i hc
      split at h
      · rw [List.mem_singleton] at h
        rw [h, List.mem_singleton]
        exact Ne.symm hc
      · rename_i first pieces hpieces
        rcases List.mem_cons.1 h with rfl | h
        · rw [List.mem_cons, not_or]
          exact ⟨Ne.symm hc, ih (hpieces ▸ List.mem_cons_self)⟩
        · exact ih (hpieces ▸ List.mem_cons_of_mem _ h)

/-- A text that does not begin with the separator begins as its first piece. -/
theorem exists_piece_head {sep c : Char} {cs : List Char} (h : c ∈ cs.head?) (hc : c ≠ sep) :
    ∃ piece ∈ piecesAt sep cs, c ∈ piece.head? := by
  cases cs with
  | nil => exact absurd h (by simp)
  | cons d cs =>
    obtain rfl : d = c := Option.some.inj h
    rw [piecesAt, if_neg hc]
    cases piecesAt sep cs with
    | nil => exact ⟨[d], List.mem_cons_self, rfl⟩
    | cons piece pieces => exact ⟨d :: piece, List.mem_cons_self, rfl⟩

/-- A text that does not end with the separator ends as its last piece. -/
theorem exists_piece_last {sep c : Char} {cs : List Char} (h : c ∈ cs.getLast?) (hc : c ≠ sep) :
    ∃ piece ∈ piecesAt sep cs, c ∈ piece.getLast? := by
  induction cs with
  | nil => exact absurd h (by simp)
  | cons d cs ih =>
    cases cs with
    | nil =>
      obtain rfl : d = c := Option.some.inj h
      rw [piecesAt, if_neg hc]
      exact ⟨[d], List.mem_cons_self, rfl⟩
    | cons e cs =>
      rw [List.getLast?_cons_cons] at h
      obtain ⟨piece, hpiece, hlast⟩ := ih h
      rw [piecesAt]
      split
      · exact ⟨piece, List.mem_cons_of_mem _ hpiece, hlast⟩
      · split
        · rename_i hnil
          rw [hnil] at hpiece
          exact absurd hpiece List.not_mem_nil
        · rename_i first pieces hpieces
          rw [hpieces] at hpiece
          rcases List.mem_cons.1 hpiece with rfl | hpiece
          · cases piece with
            | nil => exact absurd hlast (by simp)
            | cons f piece => exact ⟨_, List.mem_cons_self, hlast⟩
          · exact ⟨piece, List.mem_cons_of_mem _ hpiece, hlast⟩

/-- What stands in joined texts stands in one of them or in the separator. -/
theorem mem_joinWith {sep : String} {texts : List String} {c : Char}
    (h : c ∈ (joinWith sep texts).toList) : c ∈ sep.toList ∨ ∃ s ∈ texts, c ∈ s.toList := by
  induction texts with
  | nil => exact absurd h (by simp [joinWith])
  | cons s texts ih =>
    cases texts with
    | nil => exact .inr ⟨s, List.mem_cons_self, h⟩
    | cons t rest =>
      rw [toList_joinWith_cons_cons, List.mem_append, List.mem_append] at h
      rcases h with h | h | h
      · exact .inr ⟨s, List.mem_cons_self, h⟩
      · exact .inl h
      · rcases ih h with h | ⟨u, hu, hc⟩
        · exact .inl h
        · exact .inr ⟨u, List.mem_cons_of_mem _ hu, hc⟩

/-! ### Trimming -/

/-- Nothing is taken away from a text that does not begin with a blank. -/
theorem dropBlanks_of_head {cs : List Char} (h : ∀ c ∈ cs.head?, isBlank c = false) :
    dropBlanks cs = cs := by
  cases cs with
  | nil => rfl
  | cons c cs => rw [dropBlanks, List.dropWhile_cons_of_neg (by simp [h c rfl])]

/-- A text without a blank at either end stays as it is. -/
theorem trimChars_of_ends {cs : List Char} (hhead : ∀ c ∈ cs.head?, isBlank c = false)
    (hlast : ∀ c ∈ cs.getLast?, isBlank c = false) : trimChars cs = cs := by
  have hrev : ∀ c ∈ cs.reverse.head?, isBlank c = false := by
    rw [List.head?_reverse]
    exact hlast
  rw [trimChars, dropBlanks_of_head hhead, dropBlanks_of_head hrev, List.reverse_reverse]

/-- A text without blanks stays as it is. -/
theorem trimChars_of_no_blank {cs : List Char} (h : ∀ c ∈ cs, isBlank c = false) :
    trimChars cs = cs :=
  trimChars_of_ends (fun c hc => h c (List.mem_of_mem_head? hc))
    (fun c hc => h c (List.mem_of_mem_getLast? hc))

/-- Trimming leaves characters of the text. -/
theorem mem_of_mem_trimChars {cs : List Char} {c : Char} (h : c ∈ trimChars cs) : c ∈ cs := by
  have hdropped := (List.dropWhile_suffix isBlank).subset (List.mem_reverse.1 h)
  exact (List.dropWhile_suffix isBlank).subset (List.mem_reverse.1 hdropped)

/-- Dropping blanks in front keeps every character that is no blank. -/
theorem mem_dropBlanks {cs : List Char} {c : Char} (h : c ∈ cs) (hc : isBlank c = false) :
    c ∈ dropBlanks cs := by
  induction cs with
  | nil => exact absurd h List.not_mem_nil
  | cons d cs ih =>
    cases hd : isBlank d with
    | false =>
      rw [dropBlanks, List.dropWhile_cons_of_neg (by simp [hd])]
      exact h
    | true =>
      have hne : c ≠ d := by
        rintro rfl
        exact absurd (hc.symm.trans hd) (by decide)
      rw [dropBlanks, List.dropWhile_cons_of_pos hd]
      exact ih ((List.mem_cons.1 h).resolve_left hne)

/-- Only blanks are trimmed. -/
theorem mem_trimChars {cs : List Char} {c : Char} (h : c ∈ cs) (hc : isBlank c = false) :
    c ∈ trimChars cs :=
  List.mem_reverse.2 (mem_dropBlanks (List.mem_reverse.2 (mem_dropBlanks h hc)) hc)

/-- A text that stays as it is begins and ends without a blank. -/
theorem ends_of_trimChars {cs : List Char} (h : trimChars cs = cs) :
    (∀ c ∈ cs.head?, isBlank c = false) ∧ ∀ c ∈ cs.getLast?, isBlank c = false := by
  have hkept : ∀ {ds : List Char}, dropBlanks ds = ds → ∀ c ∈ ds.head?, isBlank c = false := by
    intro ds hds c hc
    cases ds with
    | nil => exact absurd hc (by simp)
    | cons d ds =>
      obtain rfl : d = c := Option.some.inj hc
      by_contra hblank
      rw [dropBlanks, List.dropWhile_cons_of_pos (by simpa using hblank)] at hds
      have hlength := (List.dropWhile_suffix (l := ds) isBlank).length_le
      rw [hds, List.length_cons] at hlength
      omega
  have hfront : (dropBlanks cs).length ≤ cs.length := (List.dropWhile_suffix isBlank).length_le
  have hback : (dropBlanks (dropBlanks cs).reverse).length ≤ (dropBlanks cs).length := by
    have hshorter := (List.dropWhile_suffix (l := (dropBlanks cs).reverse) isBlank).length_le
    rwa [List.length_reverse] at hshorter
  have hlength : (dropBlanks (dropBlanks cs).reverse).length = cs.length := by
    rw [trimChars] at h
    rw [← List.length_reverse, h]
  have hfull : (dropBlanks cs).length = cs.length := by omega
  have hcs : dropBlanks cs = cs := (List.dropWhile_suffix isBlank).eq_of_length hfull
  rw [hcs] at hlength
  have hrev : dropBlanks cs.reverse = cs.reverse :=
    (List.dropWhile_suffix isBlank).eq_of_length (by rw [List.length_reverse]; exact hlength)
  refine ⟨hkept hcs, ?_⟩
  rw [← List.head?_reverse]
  exact hkept hrev

/-- A text is trimmed by its characters. -/
theorem toList_trim (s : String) : (trim s).toList = trimChars s.toList := by
  rw [trim, String.toList_ofList]

/-- A text is trimmed if and only if its characters are. -/
theorem trim_eq_self {s : String} : trim s = s ↔ trimChars s.toList = s.toList := by
  constructor
  · intro h
    rw [← toList_trim, h]
  · intro h
    rw [trim, h, String.ofList_toList]

/-- What is left of a text after trimming is not blank. -/
theorem not_allBlank_trim {s : String} (h : trim s ≠ "") : allBlank (trim s) = false := by
  have hne : dropBlanks (dropBlanks s.toList).reverse ≠ [] := by
    intro hnil
    rw [trim, trimChars, hnil] at h
    exact h rfl
  have hhead := List.head_dropWhile_not isBlank hne
  rw [allBlank, toList_trim, trimChars, List.all_reverse]
  refine List.all_eq_false.2 ⟨_, List.head_mem hne, ?_⟩
  exact Bool.eq_false_iff.1 hhead

end QueryFilter.Text
