import Mathlib.Algebra.Group.Int.Defs
import QueryFilter.Operand
import QueryFilter.Json.Printer
import QueryFilter.Proofs.Calendar.Reader
import QueryFilter.Proofs.Decimal.Text

/-!
# Canonical operands

A text is canonical if it is what is shown for the value it stands for.  Canonical texts come back
from the operands that are compiled from them: a number is written as its text
(`IsCanonicalNumber.plainText_numberJson`), and the full text of an instant is shown as the text it
was read from (`IsCanonicalDate.shownText?_dateJson`).

Canonical or not, the text that is shown for a date stands for the instant that was read
(`instantText?_shown`), if its year has four digits.
-/

namespace QueryFilter.Operand

open Calendar Text

/-! ### Numbers -/

/-- The operand that is written for the text of a number. -/
def numberJson (raw : String) : Json :=
  (number? raw).elim (.string raw) .number

/-- The operand that is written for the text of an instant. -/
def dateJson (raw : String) : Json :=
  .string ((instantText? raw).getD raw)

/-- No number at all, or the very text that is written for the number. -/
def IsCanonicalNumber (s : String) : Prop :=
  ∀ n, number? s = some n → n.text = s

/-- A canonical number is written as it is read. -/
theorem IsCanonicalNumber.plainText_numberJson {s : String} (h : IsCanonicalNumber s) :
    (numberJson s).plainText = s := by
  unfold numberJson
  cases hnumber : number? s with
  | none => rfl
  | some n => exact h n hnumber

/-- The operand of a number is a number or a text. -/
theorem numberJson_scalar (s : String) :
    (∃ n, numberJson s = .number n) ∨ ∃ t, numberJson s = .string t := by
  unfold numberJson
  cases number? s with
  | none => exact .inr ⟨s, rfl⟩
  | some n => exact .inl ⟨n, rfl⟩

/-- Only a text that is no number is written as a text, namely as it is. -/
theorem eq_of_numberJson {s t : String} (h : numberJson t = .string s) : t = s := by
  unfold numberJson at h
  cases hnumber : number? t with
  | none =>
    rw [hnumber] at h
    exact Json.string.inj h
  | some n =>
    rw [hnumber] at h
    exact absurd h (by simp)

/-- A canonical text without a number character among its characters is no number. -/
theorem IsCanonicalNumber.number?_eq_none {s : String} (h : IsCanonicalNumber s) {c : Char}
    (hc : c ∈ s.toList) (hchar : Decimal.isNumberChar c = false) : number? s = none := by
  cases hnumber : number? s with
  | none => rfl
  | some n =>
    rw [← h n hnumber] at hc
    rw [Number.isNumberChar_of_mem_text hc] at hchar
    exact absurd hchar (by decide)

/-- The trimmed text of a canonical number is written as the same operand only if nothing was
trimmed. -/
theorem IsCanonicalNumber.trim_eq {s : String} (h : IsCanonicalNumber s)
    (heq : numberJson (trim s) = numberJson s) : trim s = s := by
  cases hnumber : number? s with
  | none =>
    have hs : numberJson s = .string s := by rw [numberJson, hnumber]; rfl
    exact eq_of_numberJson (heq.trans hs)
  | some n =>
    rw [trim_eq_self]
    refine trimChars_of_no_blank fun c hc => ?_
    rw [← h n hnumber] at hc
    exact Decimal.not_isBlank_of_isNumberChar (Number.isNumberChar_of_mem_text hc)

/-- No blank stands around the text of a number. -/
theorem trim_text (n : Number) : trim n.text = n.text :=
  trim_eq_self.2 (trimChars_of_no_blank fun _ hc =>
    Decimal.not_isBlank_of_isNumberChar (Number.isNumberChar_of_mem_text hc))

/-- An integer is read where the digits of an integer of 64 bits stand. -/
theorem number?_eq_integer {raw : String} {i : Int} :
    number? raw = some (.integer i) ↔ Decimal.int64? (trimChars raw.toList) = some i := by
  rw [number?]
  cases Decimal.int64? (trimChars raw.toList) with
  | none => simp
  | some j => simp

/-- A number that was read is read from its text again, if that holds of doubles. -/
theorem number?_text {raw : String} {n : Number} (h : number? raw = some n)
    (hdouble : ∀ d, n = .double d → d.ReadsBack) : number? n.text = some n := by
  have htrim : trimChars n.text.toList = n.text.toList := trim_eq_self.1 (trim_text n)
  cases n with
  | integer i =>
    rw [number?_eq_integer, htrim]
    exact Decimal.int64?_intText (Decimal.int64?_bounds (number?_eq_integer.1 h))
  | double d =>
    have hint : Decimal.int64? (Number.double d).text.toList = none := Decimal.int64?_doubleText d
    have hread : Decimal.double? (Number.double d).text.toList = some d := hdouble d rfl
    rw [number?]
    simp only [htrim, hint, hread, Option.map_some]

/-- The digits of an integer are written as the integer if and only if it has 64 bits. -/
theorem numberJson_intText_iff (i : Int) :
    numberJson (Decimal.intText i) = .ofInt i ↔ -2 ^ 63 ≤ i ∧ i < 2 ^ 63 := by
  have htrim : trimChars (Decimal.intText i).toList = (Decimal.intText i).toList :=
    trim_eq_self.1 (trim_text (.integer i))
  have hwritten : numberJson (Decimal.intText i) = .ofInt i ↔
      Decimal.int64? (Decimal.intText i).toList = some i := by
    rw [← htrim, ← number?_eq_integer, numberJson, Json.ofInt]
    cases number? (Decimal.intText i) <;> simp
  rw [hwritten]
  exact ⟨Decimal.int64?_bounds, Decimal.int64?_intText⟩

/-- An operand that was written for a number is written again for its text. -/
theorem numberJson_plainText {raw : String}
    (hdouble : ∀ d, numberJson raw = .number (.double d) → d.ReadsBack) :
    numberJson (numberJson raw).plainText = numberJson raw := by
  cases hnumber : number? raw with
  | none =>
    have hraw : numberJson raw = .string raw := by rw [numberJson, hnumber]; rfl
    rw [hraw]
    exact hraw
  | some n =>
    have hraw : numberJson raw = .number n := by rw [numberJson, hnumber]; rfl
    have hread : number? n.text = some n :=
      number?_text hnumber fun d hd => hdouble d (by rw [hraw, hd])
    rw [hraw]
    change numberJson n.text = .number n
    rw [numberJson, hread]
    rfl

/-! ### Dates -/

/-- The text that is shown for the instant it stands for, in a year of four digits. -/
def IsCanonicalDate (s : String) : Prop :=
  ∃ i, Instant.parse? s = some i ∧ i.date.FourDigits ∧ i.shortText = s

/-- The text of the date of the instant it stands for, in a year of four digits. -/
def IsWholeDay (s : String) : Prop :=
  ∃ i, Instant.parse? s = some i ∧ i.date.FourDigits ∧ i.date.text = s

/-- Reading a whole day gives its beginning. -/
theorem IsWholeDay.exists_date {s : String} (h : IsWholeDay s) :
    ∃ d : Date, d.FourDigits ∧ d.text = s := by
  obtain ⟨i, _, hyear, rfl⟩ := h
  exact ⟨i.date, hyear, rfl⟩

/-- A whole day is shown as it is. -/
theorem IsWholeDay.isCanonicalDate {s : String} (h : IsWholeDay s) : IsCanonicalDate s := by
  obtain ⟨d, hyear, rfl⟩ := h.exists_date
  exact ⟨Instant.startOf d, Instant.parse?_dateText hyear, hyear, Instant.shortText_startOf d⟩

/-- A day stands for its start. -/
theorem instantText?_dateText {d : Date} (h : d.FourDigits) :
    instantText? d.text = some (Instant.startOf d).text := by
  rw [instantText?, Instant.parse?_dateText h, Option.map_some]

/-- The start of a day is read back from its text. -/
theorem parse?_startOf_text {d : Date} (h : d.FourDigits) :
    Instant.parse? (Instant.startOf d).text = some (Instant.startOf d) := by
  have hyear : (Instant.startOf d).date.FourDigits := h
  rw [Instant.parse?_text hyear, Instant.toMilliseconds_startOf]

/-- An instant with a canonical text is read back from its full text. -/
theorem parse?_text_of_canonical {s : String} {i : Instant} (hparse : Instant.parse? s = some i)
    (hyear : i.date.FourDigits) (hshort : i.shortText = s) : Instant.parse? i.text = some i := by
  by_cases htime : i.time = .midnight
  · have hstart : i = Instant.startOf i.date := by rw [Instant.startOf, ← htime]
    rw [hstart]
    exact parse?_startOf_text hyear
  · rw [Instant.shortText, if_neg htime] at hshort
    rw [hshort]
    exact hparse

/-- The full text of a canonical date is shown as the date. -/
theorem IsCanonicalDate.shownText?_dateJson {s : String} (h : IsCanonicalDate s) :
    ∃ text, dateJson s = .string text ∧ shownText? text = some s := by
  obtain ⟨i, hparse, hyear, hshort⟩ := h
  refine ⟨i.text, ?_, ?_⟩
  · rw [dateJson, instantText?, hparse]
    rfl
  · rw [shownText?, parse?_text_of_canonical hparse hyear hshort, Option.map_some, hshort]

/-- The full text of a whole day is that of the day. -/
theorem IsWholeDay.dateText?_dateJson {s : String} (h : IsWholeDay s) :
    ∃ text, dateJson s = .string text ∧ dateText? text = some s := by
  obtain ⟨d, hyear, rfl⟩ := h.exists_date
  refine ⟨(Instant.startOf d).text, ?_, ?_⟩
  · rw [dateJson, instantText?_dateText hyear]
    rfl
  · rw [dateText?, parse?_startOf_text hyear]
    rfl

/-- The full text of a date is the operand of a canonical date only if this is a whole day. -/
theorem IsCanonicalDate.isWholeDay_iff {s : String} {i : Instant} (h : IsCanonicalDate s)
    (hparse : Instant.parse? s = some i) :
    IsWholeDay s ↔ (Instant.startOf i.date).text = i.text := by
  obtain ⟨j, hj, hyear, hshort⟩ := h
  obtain rfl : j = i := Option.some.inj (hj.symm.trans hparse)
  constructor
  · rintro ⟨k, hk, _, htext⟩
    obtain rfl : k = j := Option.some.inj (hk.symm.trans hparse)
    have hstart := Instant.parse?_dateText hyear
    rw [htext, hparse] at hstart
    rw [← Option.some.inj hstart]
  · intro htext
    have hstart : Instant.startOf j.date = j := by
      have hread := parse?_startOf_text hyear
      rw [htext, parse?_text_of_canonical hparse hyear hshort] at hread
      exact (Option.some.inj hread).symm
    refine ⟨j, hparse, hyear, ?_⟩
    rw [← hshort]
    conv => rhs; rw [← hstart]
    rw [Instant.shortText_startOf]

/-- Nothing is left of blanks. -/
theorem trimChars_of_allBlank {cs : List Char} (h : cs.all isBlank = true) : trimChars cs = [] := by
  have hdrop : dropBlanks cs = [] := List.dropWhile_eq_nil_iff.2 (List.all_eq_true.1 h)
  rw [trimChars, hdrop]
  rfl

/-- A text that stands for an instant is not blank. -/
theorem not_allBlank_of_parse? {s : String} {i : Instant} (h : Instant.parse? s = some i) :
    allBlank s = false := by
  cases hblank : allBlank s with
  | false => rfl
  | true =>
    have hnone : Instant.parse? s = none := by
      rw [Instant.parse?, trimChars_of_allBlank hblank]
      rfl
    rw [hnone] at h
    exact absurd h (by simp)

/-- The full text of an instant is not blank. -/
theorem not_allBlank_instant {raw : String} (h : allBlank raw = false) :
    allBlank ((instantText? raw).getD raw) = false := by
  rw [instantText?]
  cases Instant.parse? raw with
  | none => exact h
  | some i =>
    have hmark : 'T' ∈ i.text.toList := by
      rw [Instant.text, String.toList_ofList]
      simp
    exact List.all_eq_false.2 ⟨'T', hmark, by decide⟩

/-! ### Dates that were written -/

/-- An instant that is read from a written operand is in a year of four digits, and the operand is
its text. -/
theorem text_of_dateJson {raw s : String} (h : dateJson raw = .string s) {i : Instant}
    (hparse : Instant.parse? s = some i) : i.date.FourDigits ∧ i.text = s := by
  rw [dateJson, instantText?] at h
  cases hread : Instant.parse? raw with
  | none =>
    rw [hread] at h
    obtain rfl := Json.string.inj h
    exact absurd (hread.symm.trans hparse) (by simp)
  | some j =>
    rw [hread] at h
    obtain rfl := Json.string.inj h
    by_cases hyear : j.date.FourDigits
    · have hj := Instant.parse?_text hyear
      obtain rfl := Option.some.inj (hj.symm.trans hparse)
      exact ⟨hyear, Instant.text_toMilliseconds j⟩
    · have hj := Instant.parse?_text_of_signed hyear
      exact absurd (hj.symm.trans hparse) (by simp)

/-- What is shown for a written date is written as the same operand. -/
theorem dateJson_shown {raw s : String} (h : dateJson raw = .string s) :
    dateJson ((shownText? s).getD s) = .string s := by
  rw [shownText?]
  cases hparse : Instant.parse? s with
  | none =>
    rw [Option.map_none, Option.getD_none, dateJson, instantText?, hparse]
    rfl
  | some i =>
    obtain ⟨hyear, htext⟩ := text_of_dateJson h hparse
    rw [Option.map_some, Option.getD_some, Instant.shortText]
    split
    · rename_i hmidnight
      have hstart : i = Instant.startOf i.date := by rw [Instant.startOf, ← hmidnight]
      rw [dateJson, instantText?_dateText hyear, Option.getD_some, ← hstart, htext]
    · rw [htext, dateJson, instantText?, hparse, Option.map_some, Option.getD_some, htext]

/-- What is shown for a written date is not blank if the operand is not. -/
theorem not_allBlank_shown {raw s : String} (h : dateJson raw = .string s)
    (hblank : allBlank s = false) : allBlank ((shownText? s).getD s) = false := by
  rw [shownText?]
  cases hparse : Instant.parse? s with
  | none => exact hblank
  | some i =>
    obtain ⟨hyear, htext⟩ := text_of_dateJson h hparse
    rw [Option.map_some, Option.getD_some, Instant.shortText]
    split
    · exact not_allBlank_of_parse? (Instant.parse?_dateText hyear)
    · rw [htext]
      exact hblank

/-! ### Dates that are shown -/

/-- A text that is read as an instant stands for the text of this instant. -/
theorem instantText?_of_parse? {s : String} {i : Instant} (h : Instant.parse? s = some i) :
    instantText? s = some i.text := by
  rw [instantText?, h, Option.map_some]

/-- The full text of an instant is read to the millisecond, which is all that it says. -/
theorem instantText?_text {i : Instant} (h : i.date.FourDigits) :
    instantText? i.text = some i.text := by
  rw [instantText?_of_parse? (Instant.parse?_text h), Instant.text_toMilliseconds]

/-- What is shown of an instant stands for what its full text says. -/
theorem instantText?_shortText {i : Instant} (h : i.date.FourDigits) :
    instantText? i.shortText = some i.text := by
  rw [Instant.shortText]
  split
  · rename_i hmidnight
    have hstart : i = Instant.startOf i.date := by rw [Instant.startOf, ← hmidnight]
    rw [instantText?_dateText h, ← hstart]
  · exact instantText?_text h

/-- The full text of what was read is itself read again in the years of four digits, and in no
others. -/
theorem instantText?_text_iff {s : String} {i : Instant} (hparse : Instant.parse? s = some i) :
    (instantText? s).bind instantText? = instantText? s ↔ i.date.FourDigits := by
  rw [instantText?_of_parse? hparse, Option.bind_some]
  constructor
  · intro hread
    by_contra hyear
    rw [instantText?, Instant.parse?_text_of_signed hyear] at hread
    exact absurd hread (by simp)
  · exact instantText?_text

/-- Showing a date loses nothing: whatever form an instant of a year of four digits was read from,
the text that is shown for it has the same full text, and the full text is its own. -/
theorem instantText?_shown {s : String} {i : Instant} (hparse : Instant.parse? s = some i)
    (hyear : i.date.FourDigits) :
    ∃ shown text, shownText? s = some shown ∧ instantText? s = some text ∧
      instantText? shown = some text ∧ instantText? text = some text := by
  refine ⟨i.shortText, i.text, ?_, instantText?_of_parse? hparse, instantText?_shortText hyear,
    instantText?_text hyear⟩
  rw [shownText?, hparse, Option.map_some]

/-- A local time on the last evening of a leap year's February, which is the first of March in
universal time, a part of a millisecond after midnight. -/
theorem instantText?_shown_nextMonth :
    ∃ i, Instant.parse? " 2024-02-29t21:00:00.0004-03:00 " = some i ∧ i.date.FourDigits ∧
      ∃ shown text, shownText? " 2024-02-29t21:00:00.0004-03:00 " = some shown ∧
        instantText? " 2024-02-29t21:00:00.0004-03:00 " = some text ∧
        instantText? shown = some text ∧ instantText? text = some text := by
  obtain ⟨i, hparse, hyear⟩ : ∃ i, Instant.parse? " 2024-02-29t21:00:00.0004-03:00 " = some i ∧
      i.date.FourDigits :=
    ⟨⟨⟨2024, 3, 1, by decide, by decide, by decide, by decide⟩,
      ⟨0, 0, 0, 400000, by decide, by decide, by decide, by decide⟩⟩, by decide +kernel,
      ⟨by decide, by decide⟩⟩
  exact ⟨i, hparse, hyear, instantText?_shown hparse hyear⟩

end QueryFilter.Operand
