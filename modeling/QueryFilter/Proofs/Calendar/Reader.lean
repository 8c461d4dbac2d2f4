import Mathlib.Algebra.Group.Nat.Defs
import QueryFilter.Calendar.Reader
import QueryFilter.Proofs.Decimal.Digits
import QueryFilter.Proofs.Text.Split

/-!
# Reading instants that were written

The text of an instant of the years 0 to 9999 is read as the instant, to the millisecond
(`parse?_text`), and the text of a date as the beginning of the date (`parse?_dateText`).  Outside
these years the year is written with a sign, which the full form does not know.
-/

namespace QueryFilter.Calendar

open Decimal Text

/-! ### Numbers of a fixed width -/

/-- A padded number is made of digits. -/
theorem isDigit_of_mem_padded {width n : Nat} {c : Char} (h : c ∈ Date.padded width n) :
    isDigit c = true := by
  rcases List.mem_append.1 h with h | h
  · rw [(List.mem_replicate.1 h).2]
    rfl
  · exact isDigit_of_mem_toDigits h

/-- A number that fits is padded to its width. -/
theorem length_padded {width n : Nat} (hwidth : 0 < width) (hn : n < 10 ^ width) :
    (Date.padded width n).length = width := by
  have hlength : (Nat.toDigits 10 n).length ≤ width :=
    (Nat.length_toDigits_le_iff (by decide) hwidth).2 hn
  rw [Date.padded, List.length_append, List.length_replicate]
  omega

/-- A number is read up to the greatest number of digits. -/
theorem number?_padded {least width n : Nat} (hleast : least ≤ width) (hwidth : 0 < width)
    (hn : n < 10 ^ width) (rest : List Char) :
    number? least width (Date.padded width n ++ rest) = some (n, rest) := by
  have hlength := length_padded hwidth hn
  have htake : (Date.padded width n ++ rest).take width = Date.padded width n :=
    List.take_left' hlength
  have hdigits : (Date.padded width n).takeWhile isDigit = Date.padded width n :=
    List.takeWhile_eq_self_iff.2 fun c => isDigit_of_mem_padded
  have hdrop : (Date.padded width n ++ rest).drop width = rest := List.drop_left' hlength
  have hvalue : digitsValue 0 (Date.padded width n) = n := digitsValue_toDigits _ _
  simp only [number?, htake, hdigits, hlength, if_neg (Nat.not_lt.2 hleast), hdrop, hvalue]

/-- A padded number begins with a digit. -/
theorem exists_padded (width n : Nat) :
    ∃ c cs, Date.padded width n = c :: cs ∧ isDigit c = true := by
  cases hpadded : Date.padded width n with
  | nil =>
    have hdigits : Nat.toDigits 10 n = [] := (List.append_eq_nil_iff.1 hpadded).2
    exact absurd hdigits Nat.toDigits_ne_nil
  | cons c cs => exact ⟨c, cs, rfl, isDigit_of_mem_padded (hpadded ▸ List.mem_cons_self)⟩

/-- A digit is no blank. -/
theorem not_isBlank_of_isDigit {c : Char} (h : isDigit c = true) : isBlank c = false := by
  have hrange : 0x30 ≤ c.toNat ∧ c.toNat ≤ 0x39 := by
    rw [isDigit, Bool.and_eq_true, decide_eq_true_eq, decide_eq_true_eq] at h
    exact h
  simp only [isBlank, blankRanges, List.any_cons, List.any_nil, Bool.or_false, Bool.or_eq_false_iff,
    Bool.and_eq_false_iff, decide_eq_false_iff_not]
  omega

/-- No blank stands before a padded number. -/
theorem dropBlanks_padded (width n : Nat) (rest : List Char) :
    dropBlanks (Date.padded width n ++ rest) = Date.padded width n ++ rest := by
  obtain ⟨c, cs, hpadded, hdigit⟩ := exists_padded width n
  rw [hpadded]
  refine dropBlanks_of_head fun d hd => ?_
  rw [List.cons_append, List.head?_cons, Option.mem_some_iff] at hd
  exact hd ▸ not_isBlank_of_isDigit hdigit

/-- Two digits are read back as their number. -/
theorem twoDigits?_padded {n : Nat} (h : n < 100) (rest : List Char) :
    twoDigits? (Date.padded 2 n ++ rest) = some (n, rest) :=
  number?_padded (Nat.le_refl 2) (by decide) h rest

/-- Two digits are read back as their number where fewer would do. -/
theorem looseNumber?_padded {n : Nat} (h : n < 100) (rest : List Char) :
    looseNumber? (Date.padded 2 n ++ rest) = some (n, rest) := by
  rw [looseNumber?, dropBlanks_padded]
  exact number?_padded (by decide) (by decide) h rest

/-- Four digits are read back as their year where a sign or fewer would do. -/
theorem looseYear?_padded {n : Nat} (h : n < 10000) (rest : List Char) :
    looseYear? (Date.padded 4 n ++ rest) = some ((n : Int), rest) := by
  have hread : number? 1 4 (Date.padded 4 n ++ rest) = some (n, rest) :=
    number?_padded (by decide) (by decide) h rest
  obtain ⟨c, cs, hpadded, hdigit⟩ := exists_padded 4 n
  rw [looseYear?, dropBlanks_padded]
  split
  · rename_i heq
    rw [hpadded] at heq
    obtain ⟨rfl, _⟩ := List.cons.inj heq
    exact absurd hdigit (by decide)
  · rename_i heq
    rw [hpadded] at heq
    obtain ⟨rfl, _⟩ := List.cons.inj heq
    exact absurd hdigit (by decide)
  · rw [hread]
    rfl

/-! ### Dates -/

namespace Date

/-- The years that are written with four digits. -/
def FourDigits (d : Date) : Prop :=
  0 ≤ d.year ∧ d.year ≤ 9999

/-- A day has two digits at most. -/
theorem day_lt (d : Date) : d.day < 100 := by
  have hle := d.day_le
  unfold daysIn at hle
  split at hle
  · split at hle <;> omega
  · split at hle <;> omega

/-- A month has two digits at most. -/
theorem month_lt (d : Date) : d.month < 100 := by
  have hle := d.month_le
  omega

/-- A date with a four-digit year is written as year, month and day with hyphens. -/
theorem chars_eq {d : Date} (h : d.FourDigits) :
    d.chars = padded 4 d.year.toNat ++ '-' :: (padded 2 d.month ++ '-' :: padded 2 d.day) := by
  have hrange : 0 ≤ d.year ∧ d.year ≤ 9999 := h
  rw [chars, yearText, if_pos hrange, List.append_assoc, List.cons_append]

/-- A date of these years is written with digits and hyphens. -/
theorem isDigit_or_of_mem_chars {d : Date} (h : d.FourDigits) {c : Char} (hc : c ∈ d.chars) :
    isDigit c = true ∨ c = '-' := by
  rw [chars_eq h, List.mem_append, List.mem_cons, List.mem_append, List.mem_cons] at hc
  rcases hc with hc | rfl | hc | rfl | hc
  · exact .inl (isDigit_of_mem_padded hc)
  · exact .inr rfl
  · exact .inl (isDigit_of_mem_padded hc)
  · exact .inr rfl
  · exact .inl (isDigit_of_mem_padded hc)

/-- No blank stands around the characters of a date. -/
theorem trimChars_chars {d : Date} (h : d.FourDigits) : trimChars d.chars = d.chars := by
  refine trimChars_of_no_blank fun c hc => ?_
  rcases isDigit_or_of_mem_chars h hc with hc | rfl
  · exact not_isBlank_of_isDigit hc
  · decide

/-- A date has no comma, so that a range can be cut between its ends. -/
theorem comma_not_mem_text {d : Date} (h : d.FourDigits) : ',' ∉ d.text.toList := by
  rw [text, String.toList_ofList]
  intro hc
  rcases isDigit_or_of_mem_chars h hc with hc | hc <;> exact absurd hc (by decide)

/-- No blank stands around the text of a date. -/
theorem trim_text {d : Date} (h : d.FourDigits) : trim d.text = d.text := by
  rw [trim_eq_self, text, String.toList_ofList, trimChars_chars h]

/-- The text of a date is not empty. -/
theorem text_ne_empty {d : Date} (h : d.FourDigits) : d.text ≠ "" := by
  intro hnil
  have hchars := congrArg String.toList hnil
  rw [text, String.toList_ofList, chars_eq h] at hchars
  exact absurd (List.append_eq_nil_iff.1 hchars).2 (List.cons_ne_nil _ _)

/-- A date is made again of the fields that are read from its text. -/
theorem ofFields?_toNat {d : Date} (h : d.FourDigits) :
    ofFields? (d.year.toNat : Int) d.month d.day = some d := by
  have hyear : (d.year.toNat : Int) = d.year := Int.toNat_of_nonneg h.1
  have hle := h.2
  have hge := h.1
  rw [hyear]
  exact ofFields?_self d (by rw [leastYear]; omega) (by rw [greatestYear]; omega)

/-- A four-digit year is below ten thousand. -/
theorem toNat_year_lt {d : Date} (h : d.FourDigits) : d.year.toNat < 10000 := by
  have hle := h.2
  omega

/-- A date at the beginning of a text is read. -/
theorem looseDate?_chars {d : Date} (h : d.FourDigits) (rest : List Char) :
    looseDate? (d.chars ++ rest) = some (d, rest) := by
  rw [chars_eq h, List.append_assoc, List.cons_append, List.append_assoc, List.cons_append]
  simp only [looseDate?, bind, Option.bind, looseYear?_padded (toNat_year_lt h),
    looseNumber?_padded d.month_lt, looseNumber?_padded d.day_lt, after?, if_true,
    ofFields?_toNat h, pure]

end Date

/-! ### Instants -/

namespace TimeOfDay

/-- A time of day without what is shorter than a millisecond. -/
def toMilliseconds (t : TimeOfDay) : TimeOfDay :=
  { t with
    nanosecond := t.nanosecond / tenPow 6 * tenPow 6
    nanosecond_lt := Nat.lt_of_le_of_lt (Nat.div_mul_le_self _ _) t.nanosecond_lt }

/-- Midnight has no parts of a millisecond. -/
@[simp] theorem toMilliseconds_midnight : midnight.toMilliseconds = midnight := rfl

/-- A day has 1440 minutes. -/
theorem minuteOfDay_lt (t : TimeOfDay) : t.minuteOfDay < 1440 := by
  have hhour := t.hour_lt
  have hminute := t.minute_lt
  rw [minuteOfDay]
  omega

/-- Setting the minute that it has leaves a time as it is. -/
theorem withMinuteOfDay_self (t : TimeOfDay) {minutes : Nat} (h : minutes < 1440)
    (heq : minutes = t.minuteOfDay) : t.withMinuteOfDay minutes h = t := by
  subst heq
  obtain ⟨hour, minute, second, nanosecond, hhour, hminute, hsecond, hnanosecond⟩ := t
  have hh : (60 * hour + minute) / 60 = hour := by omega
  have hm : (60 * hour + minute) % 60 = minute := by omega
  simp only [withMinuteOfDay, minuteOfDay, hh, hm]

/-- A second has a thousand milliseconds. -/
theorem milliseconds_lt (t : TimeOfDay) : t.nanosecond / tenPow 6 < 1000 := by
  have hlt := t.nanosecond_lt
  have hsix : tenPow 6 = 1000000 := rfl
  have hnine : tenPow 9 = 1000000000 := rfl
  rw [hnine] at hlt
  rw [hsix]
  omega

/-- The fields that are read from its text make a time again, to the millisecond. -/
theorem ofFields?_toMilliseconds (t : TimeOfDay) :
    ofFields? t.hour t.minute t.second (t.nanosecond / tenPow 6 * tenPow 6) =
      some t.toMilliseconds := by
  have hlt : t.nanosecond / tenPow 6 * tenPow 6 < tenPow 9 := t.toMilliseconds.nanosecond_lt
  rw [ofFields?, dif_pos ⟨t.hour_lt, t.minute_lt, t.second_le, hlt⟩]
  rfl

/-- Three digits behind a point are read back as milliseconds. -/
theorem nanosecond?_milliseconds (t : TimeOfDay) (c : Char) (hc : isDigit c = false)
    (rest : List Char) :
    nanosecond? ('.' :: (Date.padded 3 (t.nanosecond / tenPow 6) ++ c :: rest)) =
      some (t.nanosecond / tenPow 6 * tenPow 6, c :: rest) := by
  have hlength : (Date.padded 3 (t.nanosecond / tenPow 6)).length = 3 :=
    length_padded (by decide) t.milliseconds_lt
  have hvalue : digitsValue 0 (Date.padded 3 (t.nanosecond / tenPow 6)) =
      t.nanosecond / tenPow 6 := digitsValue_toDigits _ _
  generalize hdigits : Date.padded 3 (t.nanosecond / tenPow 6) = digits at hlength hvalue ⊢
  have hall : ∀ d ∈ digits, isDigit d = true := by
    intro d hd
    exact isDigit_of_mem_padded (hdigits ▸ hd)
  have htake : (digits ++ c :: rest).takeWhile isDigit = digits := by
    rw [List.takeWhile_append_of_pos hall, List.takeWhile_cons_of_neg (by simp [hc]),
      List.append_nil]
  have hdrop : (digits ++ c :: rest).dropWhile isDigit = c :: rest := by
    rw [List.dropWhile_append_of_pos hall, List.dropWhile_cons_of_neg (by simp [hc])]
  have hne : digits.isEmpty = false := by
    rw [List.isEmpty_eq_false_iff]
    rintro rfl
    exact absurd hlength (by decide)
  have hnine : digits.take 9 = digits := List.take_of_length_le (by omega)
  simp only [nanosecond?, htake, hdrop, hne, Bool.false_eq_true, if_false, fractionValue, hnine,
    hvalue, hlength]

end TimeOfDay

namespace Instant

/-- An instant without what is shorter than a millisecond. -/
def toMilliseconds (i : Instant) : Instant :=
  ⟨i.date, i.time.toMilliseconds⟩

/-- The start of a day has no parts of a millisecond. -/
@[simp] theorem toMilliseconds_startOf (d : Date) : (startOf d).toMilliseconds = startOf d := by
  rw [toMilliseconds, startOf, TimeOfDay.toMilliseconds_midnight]

/-- Without an offset an instant is its local time. -/
@[simp] theorem atOffset_zero (d : Date) (t : TimeOfDay) : atOffset d t 0 = ⟨d, t⟩ := by
  have hlt := t.minuteOfDay_lt
  have hlow : ¬ (t.minuteOfDay : Int) - 0 < 0 := by omega
  have hhigh : (t.minuteOfDay : Int) - 0 < 1440 := by omega
  have htime : ((t.minuteOfDay : Int) - 0) % 1440 = t.minuteOfDay := by omega
  rw [atOffset]
  simp only [if_neg hlow, if_pos hhigh]
  rw [TimeOfDay.withMinuteOfDay_self]
  rw [htime, Int.toNat_natCast]

/-- The marks between and around the numbers of an instant. -/
def marks : List Char :=
  ['-', '+', ':', '.', 'T', 'Z']

/-- An instant is written with digits and marks. -/
theorem isDigit_or_of_mem_text {i : Instant} {c : Char} (h : c ∈ i.text.toList) :
    isDigit c = true ∨ c ∈ marks := by
  have hsign : ∀ year : Int, c ∈ Date.yearText year → isDigit c = true ∨ c ∈ marks := by
    intro year hc
    unfold Date.yearText at hc
    split at hc
    · exact .inl (isDigit_of_mem_padded hc)
    · rcases List.mem_cons.1 hc with rfl | hc
      · exact .inr (by split <;> decide)
      · exact .inl (isDigit_of_mem_padded hc)
  have hdigits : ∀ {width n}, c ∈ Date.padded width n → isDigit c = true ∨ c ∈ marks := fun hc =>
    .inl (isDigit_of_mem_padded hc)
  rw [text, String.toList_ofList] at h
  simp only [Date.chars, TimeOfDay.chars, List.append_assoc, List.cons_append, List.mem_append,
    List.mem_cons, List.not_mem_nil, or_false] at h
  rcases h with h | rfl | h | rfl | h | rfl | h | rfl | h | rfl | h | rfl | h | rfl
  · exact hsign _ h
  all_goals first | exact hdigits h | exact .inr (by decide)

/-- No blank stands in the text of an instant. -/
theorem not_isBlank_of_mem_text {i : Instant} {c : Char} (h : c ∈ i.text.toList) :
    isBlank c = false := by
  have hmarks : ∀ mark ∈ marks, isBlank mark = false := by simp [marks, isBlank, blankRanges]
  exact (isDigit_or_of_mem_text h).elim not_isBlank_of_isDigit (hmarks c)

/-- An instant has no comma, so that a range can be cut between its ends. -/
theorem comma_not_mem_text (i : Instant) : ',' ∉ i.text.toList := by
  intro h
  rcases isDigit_or_of_mem_text h with h | h <;> exact absurd h (by decide)

/-- No blank stands around the text of an instant. -/
theorem trim_text (i : Instant) : trim i.text = i.text :=
  trim_eq_self.2 (trimChars_of_no_blank fun _ => not_isBlank_of_mem_text)

/-- A written instant is read in the full form. -/
theorem fullForm?_chars {i : Instant} (h : i.date.FourDigits) :
    fullForm? (i.date.chars ++ 'T' :: i.time.chars ++ ['Z']) = some i.toMilliseconds := by
  obtain ⟨d, t⟩ := i
  have hhour : t.hour < 100 := Nat.lt_trans t.hour_lt (by decide)
  have hminute : t.minute < 100 := Nat.lt_trans t.minute_lt (by decide)
  have hsecond : t.second < 100 := Nat.lt_of_le_of_lt t.second_le (by decide)
  have hyear : ∀ rest, number? 4 4 (Date.padded 4 d.year.toNat ++ rest) =
      some (d.year.toNat, rest) := fun rest =>
    number?_padded (Nat.le_refl 4) (by decide) (Date.toNat_year_lt h) rest
  have hoffset : offset? ['Z'] = some (0, []) := rfl
  simp only [Date.chars_eq h, TimeOfDay.chars, List.append_assoc, List.cons_append]
  simp only [fullForm?, bind, Option.bind, hyear, twoDigits?_padded d.month_lt,
    twoDigits?_padded d.day_lt, twoDigits?_padded hhour, twoDigits?_padded hminute,
    twoDigits?_padded hsecond, after?, if_true, Option.or,
    TimeOfDay.nanosecond?_milliseconds t 'Z' rfl, hoffset, Date.ofFields?_toNat h,
    TimeOfDay.ofFields?_toMilliseconds, List.isEmpty_nil, atOffset_zero]
  rfl

/-- Reading the text of an instant gives the instant, to the millisecond. -/
theorem parse?_text {i : Instant} (h : i.date.FourDigits) :
    parse? i.text = some i.toMilliseconds := by
  rw [parse?]
  simp only [trim_eq_self.1 (trim_text i)]
  rw [text, String.toList_ofList, fullForm?_chars h, Option.some_or]

/-- Reading the text of a date gives the beginning of the date. -/
theorem parse?_dateText {d : Date} (h : d.FourDigits) : parse? d.text = some (startOf d) := by
  have hyear : ∀ rest, number? 4 4 (Date.padded 4 d.year.toNat ++ rest) =
      some (d.year.toNat, rest) := fun rest =>
    number?_padded (Nat.le_refl 4) (by decide) (Date.toNat_year_lt h) rest
  have hday : twoDigits? (Date.padded 2 d.day) = some (d.day, []) := by
    have hread := twoDigits?_padded d.day_lt []
    rwa [List.append_nil] at hread
  have hfull : fullForm? d.chars = none := by
    simp only [Date.chars_eq h, fullForm?, bind, Option.bind, hyear, twoDigits?_padded d.month_lt,
      hday, after?, if_true, Option.or]
  have hdate : looseDate? d.chars = some (d, []) := by
    have hread := Date.looseDate?_chars h []
    rwa [List.append_nil] at hread
  have hlocal : ∀ withSeconds, localForm? withSeconds d.chars = none := by
    intro withSeconds
    simp only [localForm?, bind, Option.bind, hdate, after?]
  have hform : dateForm? d.chars = some (startOf d) := by
    rw [dateForm?, hdate]
    rfl
  rw [parse?, Date.text, String.toList_ofList]
  simp only [Date.trimChars_chars h, hfull, hlocal, hform, Option.none_or]

/-- The text of an instant says nothing that is shorter than a millisecond. -/
theorem text_toMilliseconds (i : Instant) : i.toMilliseconds.text = i.text := by
  have hmilliseconds : i.time.nanosecond / tenPow 6 * tenPow 6 / tenPow 6 =
      i.time.nanosecond / tenPow 6 := Nat.mul_div_cancel _ (by decide)
  simp only [text, toMilliseconds, TimeOfDay.chars, TimeOfDay.toMilliseconds, hmilliseconds]

end Instant

/-! ### Texts outside of these years -/

section Mark

/-- A character that no number of the loose forms has in it or in front. -/
def IsMark (c : Char) : Prop :=
  isDigit c = false ∧ isBlank c = false ∧ c ≠ '-' ∧ c ≠ '+' ∧ c ≠ ':' ∧ c ≠ 'T'

variable {c : Char} {cs rest : List Char}

/-- A character that is no digit is left when a number is read. -/
theorem mem_of_number? (hc : isDigit c = false) (h : c ∈ cs) {least most n : Nat}
    (hread : number? least most cs = some (n, rest)) : c ∈ rest := by
  unfold number? at hread
  simp only [Option.ite_none_left_eq_some, Option.some.injEq, Prod.mk.injEq] at hread
  obtain ⟨-, -, rfl⟩ := hread
  generalize hdigits : (cs.take most).takeWhile isDigit = digits
  have hprefix : digits <+: cs :=
    hdigits ▸ (List.takeWhile_prefix _).trans (List.take_prefix _ _)
  obtain ⟨tail, rfl⟩ := hprefix
  rw [List.drop_left]
  refine (List.mem_append.1 h).resolve_left fun hmem => ?_
  rw [← hdigits] at hmem
  rw [List.mem_takeWhile_imp hmem] at hc
  exact absurd hc (by decide)

/-- A character that is no blank is left when blanks are dropped. -/
theorem mem_of_dropBlanks (hc : isBlank c = false) (h : c ∈ cs) : c ∈ dropBlanks cs := by
  rw [← List.takeWhile_append_dropWhile (p := isBlank) (l := cs)] at h
  refine (List.mem_append.1 h).resolve_left fun hmem => ?_
  rw [List.mem_takeWhile_imp hmem] at hc
  exact absurd hc (by decide)

/-- Another character than the one that is expected is left behind it. -/
theorem mem_of_after? {d : Char} (hc : c ≠ d) (h : c ∈ cs) (hread : after? d cs = some rest) :
    c ∈ rest := by
  cases cs with
  | nil => exact absurd h List.not_mem_nil
  | cons first tail =>
    rw [after?] at hread
    simp only [Option.ite_none_right_eq_some, Option.some.injEq] at hread
    obtain ⟨rfl, rfl⟩ := hread
    exact (List.mem_cons.1 h).resolve_left hc

/-- A mark is left when a number of one or two digits is read. -/
theorem mem_of_looseNumber? (hc : IsMark c) (h : c ∈ cs) {n : Nat}
    (hread : looseNumber? cs = some (n, rest)) : c ∈ rest :=
  mem_of_number? hc.1 (mem_of_dropBlanks hc.2.1 h) hread

/-- A mark is left when a year is read. -/
theorem mem_of_looseYear? (hc : IsMark c) (h : c ∈ cs) {year : Int}
    (hread : looseYear? cs = some (year, rest)) : c ∈ rest := by
  have hdropped := mem_of_dropBlanks hc.2.1 h
  unfold looseYear? at hread
  split at hread
  · rename_i heq
    rw [heq] at hdropped
    obtain ⟨⟨n, tail⟩, hnumber, hpair⟩ := Option.map_eq_some_iff.1 hread
    obtain ⟨-, rfl⟩ := Prod.mk.inj hpair
    exact mem_of_number? hc.1 ((List.mem_cons.1 hdropped).resolve_left hc.2.2.1) hnumber
  · rename_i heq
    rw [heq] at hdropped
    obtain ⟨⟨n, tail⟩, hnumber, hpair⟩ := Option.map_eq_some_iff.1 hread
    obtain ⟨-, rfl⟩ := Prod.mk.inj hpair
    exact mem_of_number? hc.1 ((List.mem_cons.1 hdropped).resolve_left hc.2.2.2.1) hnumber
  · obtain ⟨⟨n, tail⟩, hnumber, hpair⟩ := Option.map_eq_some_iff.1 hread
    obtain ⟨-, rfl⟩ := Prod.mk.inj hpair
    exact mem_of_number? hc.1 hdropped hnumber

/-- A mark is left when a date is read. -/
theorem mem_of_looseDate? (hc : IsMark c) (h : c ∈ cs) {d : Date}
    (hread : looseDate? cs = some (d, rest)) : c ∈ rest := by
  simp only [looseDate?, bind, Option.bind_eq_some_iff, pure, Option.some.injEq] at hread
  obtain ⟨⟨year, cs₁⟩, hyear, cs₂, hdash, ⟨month, cs₃⟩, hmonth, cs₄, hdash', ⟨day, cs₅⟩, hday,
    date, -, hpair⟩ := hread
  obtain ⟨-, rfl⟩ := Prod.mk.inj hpair
  have h₁ := mem_of_looseYear? hc h hyear
  have h₂ := mem_of_after? hc.2.2.1 h₁ hdash
  have h₃ := mem_of_looseNumber? hc h₂ hmonth
  have h₄ := mem_of_after? hc.2.2.1 h₃ hdash'
  exact mem_of_looseNumber? hc h₄ hday

/-- A text with such a character is not of a loose form. -/
theorem localForm?_of_mem (hc : IsMark c) (h : c ∈ cs) (withSeconds : Bool) :
    localForm? withSeconds cs = none := by
  rw [Option.eq_none_iff_forall_ne_some]
  intro i hread
  simp only [localForm?, bind, Option.bind_eq_some_iff] at hread
  obtain ⟨⟨date, cs₁⟩, hdate, cs₂, hmark, ⟨hour, cs₃⟩, hhour, cs₄, hcolon, ⟨minute, cs₅⟩, hminute,
    hseconds⟩ := hread
  have h₁ := mem_of_looseDate? hc h hdate
  have h₂ := mem_of_after? hc.2.2.2.2.2 h₁ hmark
  have h₃ := mem_of_looseNumber? hc h₂ hhour
  have h₄ := mem_of_after? hc.2.2.2.2.1 h₃ hcolon
  have h₅ := mem_of_looseNumber? hc h₄ hminute
  have hend : ∀ {rest : List Char} {second : Nat}, c ∈ rest →
      ((TimeOfDay.ofFields? hour minute second 0).bind fun time =>
        if rest.isEmpty then some (⟨date, time⟩ : Instant) else none) ≠ some i := by
    intro rest second hmem heq
    obtain ⟨time, -, hsome⟩ := Option.bind_eq_some_iff.1 heq
    rw [List.isEmpty_eq_false_iff.2 (List.ne_nil_of_mem hmem), if_neg Bool.false_ne_true] at hsome
    exact absurd hsome (by simp)
  split at hseconds
  · obtain ⟨⟨second, cs₆⟩, hsecond, heq⟩ := Option.bind_eq_some_iff.1 hseconds
    obtain ⟨cs', hcolon', hnumber⟩ := Option.bind_eq_some_iff.1 hsecond
    have h₆ := mem_of_looseNumber? hc (mem_of_after? hc.2.2.2.2.1 h₅ hcolon') hnumber
    exact hend h₆ heq
  · exact hend h₅ hseconds

/-- No date alone is read from a text with a mark. -/
theorem dateForm?_of_mem (hc : IsMark c) (h : c ∈ cs) : dateForm? cs = none := by
  rw [Option.eq_none_iff_forall_ne_some]
  intro i hread
  obtain ⟨⟨date, cs₁⟩, hdate, hend⟩ := Option.bind_eq_some_iff.1 hread
  have hne : cs₁.isEmpty = false :=
    List.isEmpty_eq_false_iff.2 (List.ne_nil_of_mem (mem_of_looseDate? hc h hdate))
  simp only [hne, Bool.false_eq_true, if_false] at hend
  exact absurd hend (by simp)

end Mark

/-- The text of an instant of another year is not read: the full form knows no sign, and the others
know no `Z`. -/
theorem Instant.parse?_text_of_signed {i : Instant} (h : ¬ i.date.FourDigits) :
    Instant.parse? i.text = none := by
  have hfull : fullForm? i.text.toList = none := by
    have hrange : ¬ (0 ≤ i.date.year ∧ i.date.year ≤ 9999) := h
    have hsign : isDigit (if i.date.year < 0 then '-' else '+') = false := by
      split <;> decide
    have hnumber : ∀ rest, number? 4 4 ((if i.date.year < 0 then '-' else '+') :: rest) = none :=
      fun rest => by simp [number?, hsign]
    rw [Instant.text, String.toList_ofList, Date.chars, Date.yearText, if_neg hrange]
    simp only [List.cons_append, fullForm?, hnumber]
    rfl
  have hmark : IsMark 'Z' :=
    ⟨by decide, by decide, by decide, by decide, by decide, by decide⟩
  have hmem : 'Z' ∈ i.text.toList := by
    rw [Instant.text, String.toList_ofList]
    simp
  rw [Instant.parse?]
  simp only [trim_eq_self.1 (Instant.trim_text i), hfull, localForm?_of_mem hmark hmem,
    dateForm?_of_mem hmark hmem, Option.none_or]

end QueryFilter.Calendar
