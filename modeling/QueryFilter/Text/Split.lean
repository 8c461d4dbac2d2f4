/-!
# Splitting a text at a separator

`cutAt` splits at the first separator, `piecesAt` at every one.  Neither loses a character: joining
the two parts of a cut with the separator gives the text back (`cutAt_eq_some`).
-/

namespace QueryFilter.Text

/-- The parts before and after the first `sep`, if there is one. -/
def cutAt (sep : Char) : List Char → Option (List Char × List Char)
  | [] => none
  | c :: cs =>
    if c = sep then some ([], cs)
    else (cutAt sep cs).map fun parts => (c :: parts.1, parts.2)

/-- The parts between all separators; a text without any is its own single part. -/
def piecesAt (sep : Char) : List Char → List (List Char)
  | [] => [[]]
  | c :: cs =>
    if c = sep then [] :: piecesAt sep cs
    else match piecesAt sep cs with
      | [] => [[c]]
      | piece :: pieces => (c :: piece) :: pieces

/-- The parts of a text before and after its first `sep`, if there is one. -/
def cut? (sep : Char) (s : String) : Option (String × String) :=
  (cutAt sep s.toList).map fun parts => (String.ofList parts.1, String.ofList parts.2)

/-- The parts of a text between all separators. -/
def pieces (sep : Char) (s : String) : List String :=
  (piecesAt sep s.toList).map String.ofList

/-- The texts one after the other, with `sep` between neighbours. -/
def joinWith (sep : String) : List String → String
  | [] => ""
  | [s] => s
  | s :: rest => s ++ sep ++ joinWith sep rest

/-- The rest of a text after a given beginning, if the text begins so. -/
def after? : List Char → List Char → Option (List Char)
  | [], cs => some cs
  | _ :: _, [] => none
  | e :: expected, c :: cs => if e = c then after? expected cs else none

/-! ### Small lemmas -/

/-- A text is cut at the first separator: none stands before the cut. -/
theorem cutAt_eq_some {sep : Char} {cs before after : List Char}
    (h : cutAt sep cs = some (before, after)) : cs = before ++ sep :: after ∧ sep ∉ before := by
  induction cs generalizing before with
  | nil => simp [cutAt] at h
  | cons c cs ih =>
    by_cases hc : c = sep
    · simp [cutAt, hc] at h
      obtain ⟨rfl, rfl⟩ := h
      simp [hc]
    · simp only [cutAt, hc, if_false, Option.map_eq_some_iff] at h
      obtain ⟨⟨b, a⟩, hba, heq⟩ := h
      simp only [Prod.mk.injEq] at heq
      obtain ⟨rfl, rfl⟩ := heq
      obtain ⟨rfl, hb⟩ := ih hba
      exact ⟨rfl, by simp [hb, Ne.symm hc]⟩

/-- Behind a part without separators the text is cut there. -/
theorem cutAt_append {sep : Char} {before after : List Char} (h : sep ∉ before) :
    cutAt sep (before ++ sep :: after) = some (before, after) := by
  induction before with
  | nil => simp [cutAt]
  | cons c cs ih =>
    simp only [List.mem_cons, not_or] at h
    simp [cutAt, Ne.symm h.1, ih h.2]

/-- A text cannot be cut exactly if it has no separator. -/
theorem cutAt_eq_none {sep : Char} {cs : List Char} : cutAt sep cs = none ↔ sep ∉ cs := by
  induction cs with
  | nil => simp [cutAt]
  | cons c cs ih =>
    by_cases hc : c = sep
    · simp [cutAt, hc]
    · simp [cutAt, hc, ih, Ne.symm hc]

/-- Even the empty text has one piece. -/
theorem piecesAt_ne_nil (sep : Char) (cs : List Char) : piecesAt sep cs ≠ [] := by
  induction cs with
  | nil => simp [piecesAt]
  | cons c cs ih =>
    simp only [piecesAt]
    split
    · simp
    · split <;> simp

end QueryFilter.Text
