import QueryFilter.Json.Literal
import QueryFilter.Text.Percent

/-!
# Reading JSON texts

A text is read into a `Draft`: as much of a JSON value as the text makes sense of.  Where it stops
making sense the draft has a mark, and what stands before the mark can still be inspected.  So a
reader that expects a certain shape can tell which comes first, a value of another shape or the
place where the text breaks off.

`Json.parse?` accepts the texts whose draft is whole.
-/

namespace QueryFilter.Json

/-- As much of a value as a text makes sense of. -/
inductive Draft where
  | null
  | bool (value : Bool)
  /-- A number, with its value unless that is not finite. -/
  | number (value : Option Number)
  /-- A string, with its value unless its escapes name no character. -/
  | string (value : Option String)
  /-- Items, and whether the array ends after them. -/
  | array (items : List Draft) (closed : Bool)
  /-- Keys and values, and whether the object ends after them. -/
  | object (entries : List (Option String × Draft)) (closed : Bool)
  /-- No value. -/
  | broken

/-- A draft, and whether nothing but blanks follows it. -/
structure Document where
  root : Draft
  ended : Bool

/-! ### Strings -/

/-- A character of a string as written: itself, or a code of sixteen bits. -/
inductive Written where
  | char (c : Char)
  | code (n : Nat)

/-- The characters for which one letter stands after a backslash. -/
def shortEscape? (c : Char) : Option Char :=
  if c = '"' then some '"'
  else if c = '\\' then some '\\'
  else if c = '/' then some '/'
  else if c = 'b' then some '\x08'
  else if c = 'f' then some '\x0c'
  else if c = 'n' then some '\n'
  else if c = 'r' then some '\r'
  else if c = 't' then some '\t'
  else none

/-- The number of four hexadecimal digits. -/
def code? (a b c d : Char) : Option Nat := do
  let a ← Text.Percent.hexValue? a
  let b ← Text.Percent.hexValue? b
  let c ← Text.Percent.hexValue? c
  let d ← Text.Percent.hexValue? d
  return a * 0x1000 + b * 0x100 + c * 0x10 + d

/-- The characters up to the closing quotation mark, and the rest after it. -/
def stringBody? : List Char → Option (List Written × List Char)
  | [] => none
  | '"' :: cs => some ([], cs)
  | '\\' :: 'u' :: a :: b :: c :: d :: cs =>
    (code? a b c d).bind fun n =>
      (stringBody? cs).map fun (written, rest) => (.code n :: written, rest)
  | '\\' :: e :: cs =>
    (shortEscape? e).bind fun c =>
      (stringBody? cs).map fun (written, rest) => (.char c :: written, rest)
  | c :: cs =>
    if c = '\\' ∨ c.toNat < 0x20 then none
    else (stringBody? cs).map fun (written, rest) => (.char c :: written, rest)

/-- The characters of a string as written; a code of a surrogate must be the first of a pair. -/
def characters? : List Written → Option (List Char)
  | [] => some []
  | .char c :: rest => (characters? rest).map (c :: ·)
  | .code high :: .code low :: rest =>
    if high < 0xD800 ∨ 0xE000 ≤ high then
      (characters? (.code low :: rest)).map (Char.ofNat high :: ·)
    else if high < 0xDC00 ∧ 0xDC00 ≤ low ∧ low < 0xE000 then
      (characters? rest).map (Char.ofNat (0x10000 + (high - 0xD800) * 0x400 + (low - 0xDC00)) :: ·)
    else none
  | .code n :: rest =>
    if n < 0xD800 ∨ 0xE000 ≤ n then (characters? rest).map (Char.ofNat n :: ·) else none

/-- The value of a string as written. -/
def stringValue? (written : List Written) : Option String :=
  (characters? written).map String.ofList

/-! ### Values -/

/-- The text after its leading JSON blanks. -/
def skipBlanks (cs : List Char) : List Char :=
  cs.dropWhile fun c => c = ' ' || c = '\n' || c = '\t' || c = '\r'

/-- The rest of a text after a given word. -/
def afterWord? : List Char → List Char → Option (List Char)
  | [], cs => some cs
  | _ :: _, [] => none
  | e :: expected, c :: cs => if e = c then afterWord? expected cs else none

/-- A word that stands for a value, and the rest after it. -/
def word (name : String) (value : Draft) (cs : List Char) : Draft × Option (List Char) :=
  match afterWord? name.toList cs with
  | some rest => (value, some rest)
  | none => (.broken, none)

mutual

/-- The value at the beginning of a text, and the rest after it; there is no rest when the text
stops making sense.  The first argument bounds the length of the text. -/
def draftValue : Nat → List Char → Draft × Option (List Char)
  | 0, _ => (.broken, none)
  | n + 1, cs =>
    match skipBlanks cs with
    | [] => (.broken, none)
    | '[' :: rest =>
      match skipBlanks rest with
      | ']' :: rest => (.array [] true, some rest)
      | rest =>
        let (items, after) := draftItems n rest
        (.array items after.isSome, after)
    | '\x7b' :: rest =>
      match skipBlanks rest with
      | '\x7d' :: rest => (.object [] true, some rest)
      | '"' :: rest =>
        let (entries, after) := draftEntries n rest
        (.object entries after.isSome, after)
      | _ => (.object [] false, none)
    | '"' :: rest =>
      match stringBody? rest with
      | some (written, rest) => (.string (stringValue? written), some rest)
      | none => (.broken, none)
    | 'n' :: rest => word "ull" .null rest
    | 't' :: rest => word "rue" (.bool true) rest
    | 'f' :: rest => word "alse" (.bool false) rest
    | cs =>
      match literal? cs with
      | some (literal, rest) => (.number literal.value?, some rest)
      | none => (.broken, none)

/-- Items up to the closing bracket; there is at least one. -/
def draftItems : Nat → List Char → List Draft × Option (List Char)
  | 0, _ => ([.broken], none)
  | n + 1, cs =>
    match draftValue n cs with
    | (item, none) => ([item], none)
    | (item, some rest) =>
      match skipBlanks rest with
      | ']' :: rest => ([item], some rest)
      | ',' :: rest =>
        match skipBlanks rest with
        | ']' :: _ => ([item], none)
        | rest =>
          let (items, after) := draftItems n rest
          (item :: items, after)
      | _ => ([item], none)

/-- Keys and values up to the closing brace, from behind the quotation mark of a key. -/
def draftEntries : Nat → List Char → List (Option String × Draft) × Option (List Char)
  | 0, _ => ([], none)
  | n + 1, cs =>
    match stringBody? cs with
    | none => ([], none)
    | some (written, rest) =>
      let key := stringValue? written
      match skipBlanks rest with
      | ':' :: rest =>
        match draftValue n rest with
        | (value, none) => ([(key, value)], none)
        | (value, some rest) =>
          match skipBlanks rest with
          | '\x7d' :: rest => ([(key, value)], some rest)
          | ',' :: rest =>
            match skipBlanks rest with
            | '"' :: rest =>
              let (entries, after) := draftEntries n rest
              ((key, value) :: entries, after)
            | _ => ([(key, value)], none)
          | _ => ([(key, value)], none)
      | _ => ([(key, .broken)], none)

end

/-- The draft of a text. -/
def Document.read (s : String) : Document :=
  let cs := s.toList
  match draftValue (cs.length + 1) cs with
  | (root, none) => ⟨root, false⟩
  | (root, some rest) => ⟨root, (skipBlanks rest).isEmpty⟩

/-! ### Whole values -/

/-- Arrays and objects nest less deep than this. -/
def depthLimit : Nat := 128

mutual

/-- The value of a draft that is whole, and whose arrays and objects nest less than `depth` deep. -/
def Draft.toJson? (depth : Nat) : Draft → Option Json
  | .null => some .null
  | .bool value => some (.bool value)
  | .number value => value.map .number
  | .string value => value.map .string
  | .array items closed =>
    if depth ≤ 1 then none
    else (toItems? (depth - 1) items).bind fun items => if closed then some (.array items) else none
  | .object entries closed =>
    if depth ≤ 1 then none
    else (toEntries? (depth - 1) [] entries).bind fun entries =>
      if closed then some (.object entries) else none
  | .broken => none

/-- The values of drafts that are whole. -/
def toItems? (depth : Nat) : List Draft → Option (List Json)
  | [] => some []
  | item :: items =>
    (item.toJson? depth).bind fun item => (toItems? depth items).map (item :: ·)

/-- The entries of drafts that are whole, written one after the other to the entries before them. -/
def toEntries? (depth : Nat) (before : Object) : List (Option String × Draft) → Option Object
  | [] => some before
  | (key, value) :: rest =>
    key.bind fun key =>
      (value.toJson? depth).bind fun value =>
        toEntries? depth (Entries.insert before key value) rest

end

/-- The value of a text that is JSON. -/
def parse? (s : String) : Option Json :=
  let document := Document.read s
  if document.ended then document.root.toJson? depthLimit else none

end QueryFilter.Json
