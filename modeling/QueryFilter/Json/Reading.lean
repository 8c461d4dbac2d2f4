import QueryFilter.Json.Draft

/-!
# Reading records from JSON texts

A reader takes what it expects out of a draft.  It fails when the text stops making sense, or when a
value has another shape than expected; readers go through a text from left to right, and what comes
first is the reason.

A record is an object with known keys, each of them at most once, or an array of the values of the
keys in a fixed order.  Keys that are not known are passed over together with their values, of which
no more is asked than that they end.
-/

namespace QueryFilter.Json

/-- Why nothing can be read. -/
inductive Unreadable where
  /-- The text stops making sense. -/
  | text
  /-- A value has another shape than expected. -/
  | shape
  deriving DecidableEq, Repr

namespace Draft

/-- Why a draft of another shape than expected cannot be read.  The first character tells that a
value is an array or an object; any other value has to make sense. -/
def refusal : Draft → Unreadable
  | .broken => .text
  | .number none => .text
  | .string none => .text
  | _ => .shape

mutual

/-- Whether a draft ends. -/
def isWhole : Draft → Bool
  | .broken => false
  | .array items closed => areWhole items && closed
  | .object entries closed => valuesAreWhole entries && closed
  | _ => true

/-- Whether drafts end. -/
def areWhole : List Draft → Bool
  | [] => true
  | item :: items => item.isWhole && areWhole items

/-- Whether the drafts below keys end. -/
def valuesAreWhole : List (Option String × Draft) → Bool
  | [] => true
  | (_, value) :: rest => value.isWhole && valuesAreWhole rest

end

/-- Passes over a value. -/
def skip (draft : Draft) : Except Unreadable Unit :=
  if draft.isWhole then .ok () else .error .text

/-- Reads a text. -/
def readString : Draft → Except Unreadable String
  | .string (some value) => .ok value
  | other => .error other.refusal

/-- Reads a natural below a bound. -/
def readNat (bound : Nat) : Draft → Except Unreadable Nat
  | .number (some (.integer i)) =>
    if 0 ≤ i ∧ i < bound then .ok i.toNat else .error .shape
  | other => .error other.refusal

/-- Reads any value whose arrays and objects nest less than `depth` deep. -/
def readJson (depth : Nat) (draft : Draft) : Except Unreadable Json :=
  match draft.toJson? depth with
  | some value => .ok value
  | none => .error .text

variable {α : Type}

/-- Reads a value, or null for none. -/
def readOption (read : Draft → Except Unreadable α) : Draft → Except Unreadable (Option α)
  | .null => .ok none
  | other => (read other).map some

/-- Reads an array. -/
def readList (read : Draft → Except Unreadable α) : Draft → Except Unreadable (List α)
  | .array items closed => do
    let values ← items.mapM read
    if closed then return values else throw .text
  | other => .error other.refusal

/-- Reads the entries of a record from an object, given the known keys that were read before. -/
def readEntries (keys : List String) (read : α → String → Draft → Except Unreadable α)
    (before : List String) (start : α) :
    List (Option String × Draft) → Except Unreadable α
  | [] => .ok start
  | (none, _) :: _ => .error .text
  | (some key, value) :: rest =>
    if keys.contains key then
      if before.contains key then .error .shape
      else do readEntries keys read (key :: before) (← read start key value) rest
    else do
      value.skip
      readEntries keys read before start rest

/-- Reads a record, entry by entry from a start on. -/
def readRecord (keys : List String) (read : α → String → Draft → Except Unreadable α) (start : α) :
    Draft → Except Unreadable α
  | .object entries closed => do
    let record ← readEntries keys read [] start entries
    if closed then return record else throw .text
  | .array items closed => do
    let record ← (keys.zip items).foldlM (fun record (key, item) => read record key item) start
    if closed ∧ items.length ≤ keys.length then return record else throw .text
  | other => .error other.refusal

end Draft

/-- Reads a whole document. -/
def Document.readAs {α : Type} (document : Document) (read : Draft → Except Unreadable α) :
    Except Unreadable α := do
  let value ← read document.root
  if document.ended then return value else throw .text

end QueryFilter.Json
