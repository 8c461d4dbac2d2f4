import QueryFilter.Proofs.Text.Utf8
import QueryFilter.Text.Split

/-!
# Boundaries between characters

Octets of a text can be taken apart only where a character begins or the text ends (`isBoundary`).
Every text within a text ends at such a place (`isBoundary_append`).

An ASCII character is one octet, which occurs in no other character.  So octets are searched for it
as characters are (`findIdx?_encode`).
-/

namespace QueryFilter.Text.Utf8

/-- Whether an octet continues a character. -/
def isContinuation (b : Nat) : Bool :=
  0x80 ≤ b && b < 0xC0

/-- Whether a character begins at an offset, or the text ends there. -/
def isBoundary (octets : List Nat) (offset : Nat) : Bool :=
  match octets[offset]? with
  | some b => !isContinuation b
  | none => offset == octets.length

/-- An ASCII character is its own octet. -/
theorem encodeChar_of_lt {c : Char} (h : c.toNat < 0x80) : encodeChar c = [c.toNat] := by
  simp only [encodeChar, if_pos h]

/-- The octets of any other character are not ASCII. -/
theorem le_of_mem_encodeChar {c : Char} (h : ¬ c.toNat < 0x80) {b : Nat}
    (hb : b ∈ encodeChar c) : 0x80 ≤ b := by
  simp only [encodeChar, if_neg h] at hb
  split at hb
  · simp only [List.mem_cons, List.not_mem_nil, or_false] at hb
    omega
  · split at hb <;> simp only [List.mem_cons, List.not_mem_nil, or_false] at hb <;> omega

/-- ASCII octets and those that begin a longer character continue none. -/
theorem isContinuation_eq_false {b : Nat} (h : b < 0x80 ∨ 0xC0 ≤ b) :
    isContinuation b = false := by
  simp only [isContinuation, Bool.and_eq_false_iff, decide_eq_false_iff_not]
  omega

/-- A character begins with an octet that continues none. -/
theorem exists_encodeChar_eq_cons (c : Char) :
    ∃ b bs, encodeChar c = b :: bs ∧ isContinuation b = false := by
  unfold encodeChar
  generalize c.toNat = v
  simp only
  split
  · exact ⟨_, _, rfl, isContinuation_eq_false (by omega)⟩
  split
  · exact ⟨_, _, rfl, isContinuation_eq_false (by omega)⟩
  split
  · exact ⟨_, _, rfl, isContinuation_eq_false (by omega)⟩
  · exact ⟨_, _, rfl, isContinuation_eq_false (by omega)⟩

/-- Joined texts are encoded part by part. -/
theorem encode_append (a b : List Char) : encode (a ++ b) = encode a ++ encode b :=
  List.flatMap_append

/-- Between two texts there is a boundary. -/
theorem isBoundary_append (before after : List Char) :
    isBoundary (encode (before ++ after)) (encode before).length = true := by
  rw [isBoundary, encode_append, List.getElem?_append_right (Nat.le_refl _), Nat.sub_self]
  cases after with
  | nil => simp
  | cons c after =>
    obtain ⟨b, bs, hoctets, hb⟩ := exists_encodeChar_eq_cons c
    rw [encode_cons, hoctets]
    simp [hb]

/-- The octet of an ASCII character occurs in no other character. -/
theorem eq_of_mem_encodeChar {sep c : Char} (hsep : sep.toNat < 0x80)
    (h : sep.toNat ∈ encodeChar c) : c = sep := by
  by_cases hascii : c.toNat < 0x80
  · rw [encodeChar_of_lt hascii, List.mem_singleton] at h
    exact Char.toNat_inj.1 h.symm
  · have hle := le_of_mem_encodeChar hascii h
    omega

/-- The octet of an ASCII character is found where the character is. -/
theorem findIdx?_encode {sep : Char} (hsep : sep.toNat < 0x80) (cs : List Char) :
    (encode cs).findIdx? (· == sep.toNat) =
      (cutAt sep cs).map fun parts => (encode parts.1).length := by
  induction cs with
  | nil => rfl
  | cons c cs ih =>
    rw [encode_cons, List.findIdx?_append, ih, cutAt]
    by_cases hc : c = sep
    · subst hc
      simp [encodeChar_of_lt hsep]
    · have hnone : (encodeChar c).findIdx? (· == sep.toNat) = none := by
        refine List.findIdx?_eq_none_iff.2 fun b hb => beq_eq_false_iff_ne.2 fun heq => ?_
        exact hc (eq_of_mem_encodeChar hsep (heq ▸ hb))
      rw [hnone, Option.none_or, if_neg hc, Option.map_map, Option.map_map]
      refine congrArg (Option.map · (cutAt sep cs)) (funext fun parts => ?_)
      simp [encode_cons, Nat.add_comm]

end QueryFilter.Text.Utf8
