/-!
# UTF-8 octets

Encoding of characters as octets and decoding of arbitrary octets.  Octets are natural numbers.

`decode` reads any octets: it answers a character for every well-formed sequence and `none` for
every maximal beginning of a sequence that cannot be completed.  `decodeStrict` accepts only
well-formed octets, `decodeLossy` puts the replacement character where `decode` has `none`.
-/

namespace QueryFilter.Text.Utf8

/-- The octets of one character. -/
def encodeChar (c : Char) : List Nat :=
  let v := c.toNat
  if v < 0x80 then [v]
  else if v < 0x800 then [0xC0 + v / 0x40, 0x80 + v % 0x40]
  else if v < 0x10000 then [0xE0 + v / 0x1000, 0x80 + v / 0x40 % 0x40, 0x80 + v % 0x40]
  else [0xF0 + v / 0x40000, 0x80 + v / 0x1000 % 0x40, 0x80 + v / 0x40 % 0x40, 0x80 + v % 0x40]

/-- The octets of a text. -/
def encode (cs : List Char) : List Nat :=
  cs.flatMap encodeChar

/-- Where a decoder stands between two octets. -/
inductive State where
  /-- Between characters. -/
  | idle
  /-- Inside a character: `owed + 1` octets are missing, the next one lies between `low` and `high`,
  and `value` collects the bits read so far. -/
  | inside (owed low high value : Nat)

/-- What a first octet announces. -/
inductive Lead where
  /-- A character of one octet. -/
  | single (c : Char)
  /-- The beginning of a longer character. -/
  | begins (next : State)
  /-- No character begins so. -/
  | invalid

/-- The meaning of a first octet. -/
def lead (b : Nat) : Lead :=
  if b < 0x80 then .single (Char.ofNat b)
  else if b < 0xC2 then .invalid
  else if b < 0xE0 then .begins (.inside 0 0x80 0xBF (b - 0xC0))
  else if b = 0xE0 then .begins (.inside 1 0xA0 0xBF 0)
  else if b = 0xED then .begins (.inside 1 0x80 0x9F 0xD)
  else if b < 0xF0 then .begins (.inside 1 0x80 0xBF (b - 0xE0))
  else if b = 0xF0 then .begins (.inside 2 0x90 0xBF 0)
  else if b < 0xF4 then .begins (.inside 2 0x80 0xBF (b - 0xF0))
  else if b = 0xF4 then .begins (.inside 2 0x80 0x8F 4)
  else .invalid

/-- The characters of octets read from a state; `none` stands for octets that no character has. -/
def decodeFrom : State → List Nat → List (Option Char)
  | .idle, [] => []
  | .inside .., [] => [none]
  | .idle, b :: bs =>
    match lead b with
    | .single c => some c :: decodeFrom .idle bs
    | .begins next => decodeFrom next bs
    | .invalid => none :: decodeFrom .idle bs
  | .inside owed low high value, b :: bs =>
    if low ≤ b ∧ b ≤ high then
      match owed with
      | 0 => some (Char.ofNat (value * 0x40 + (b - 0x80))) :: decodeFrom .idle bs
      | owed + 1 => decodeFrom (.inside owed 0x80 0xBF (value * 0x40 + (b - 0x80))) bs
    else
      match lead b with
      | .single c => none :: some c :: decodeFrom .idle bs
      | .begins next => none :: decodeFrom next bs
      | .invalid => none :: none :: decodeFrom .idle bs

/-- The characters of octets; `none` stands for octets that no character has. -/
def decode (bs : List Nat) : List (Option Char) :=
  decodeFrom .idle bs

/-- The characters of well-formed octets. -/
def decodeStrict (bs : List Nat) : Option (List Char) :=
  (decode bs).mapM id

/-- The characters of any octets, with U+FFFD for octets that no character has. -/
def decodeLossy (bs : List Nat) : List Char :=
  (decode bs).map fun c => c.getD (Char.ofNat 0xFFFD)

/-! ### Small lemmas -/

@[simp] theorem encode_nil : encode [] = [] := rfl

/-- A text is encoded character by character. -/
@[simp] theorem encode_cons (c : Char) (cs : List Char) :
    encode (c :: cs) = encodeChar c ++ encode cs := rfl

@[simp] theorem decode_nil : decode [] = [] := rfl

@[simp] theorem decodeStrict_nil : decodeStrict [] = some [] := rfl

end QueryFilter.Text.Utf8
