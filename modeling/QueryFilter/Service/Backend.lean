import QueryFilter.Catalog.Resource
import QueryFilter.Decimal.Power
import QueryFilter.Json.Reading
import QueryFilter.Listing.ListQuery
import QueryFilter.Service.Fault
import QueryFilter.Service.Status

/-!
# The backend

Items are kept by a backend.  It is asked for a page under an address, and what comes of that is a
`BackendReply`: an answer, or none.  A reply that is no page is a fault.
-/

namespace QueryFilter

/-- What comes of asking the backend. -/
inductive BackendReply where
  /-- No answer came. -/
  | unreachable
  | answered (status : Nat) (body : String)
  deriving DecidableEq, Repr

/-! ### The address -/

/-- Whether a character cannot stand in an address as it is. -/
def isForeignToAddress (c : Char) : Bool :=
  c ≤ ' ' || '~' < c || c == '"' || c == '<' || c == '>' || c.toNat == 0x60 || c == '\x7b' ||
    c == '\x7d'

/-- A text with escapes for the characters that cannot stand in an address. -/
def escapeAddress (s : String) : String :=
  String.ofList (s.toList.flatMap fun c =>
    if isForeignToAddress c then Text.Percent.escapeChar c else [c])

/-- A text without the slashes at its end. -/
def trimSlashes (s : String) : String :=
  String.ofList (s.toList.reverse.dropWhile (· == '/')).reverse

/-- The address of a page of a resource, below the address of the backend. -/
def backendAddress (base : String) (resource : Resource) (query : ListQuery) : String :=
  escapeAddress (trimSlashes base ++ "/" ++ resource.name ++ "?" ++ query.queryString)

/-! ### Pages -/

namespace Page

/-- What was read of a page so far. -/
structure Gathered where
  items : Option (List Json)
  total : Nat
  page : Nat
  limit : Nat

/-- The keys of a page. -/
def keys : List String :=
  ["data", "total", "page", "limit"]

/-- Reads one key with its value.  The values of a page are two levels deep. -/
def Gathered.read (gathered : Gathered) (key : String) (draft : Json.Draft) :
    Except Json.Unreadable Gathered :=
  match key with
  | "data" =>
    (draft.readList (Json.Draft.readJson (Json.depthLimit - 2))).map fun items =>
      { gathered with items := some items }
  | "total" => (draft.readNat (Decimal.twoPow 64)).map fun total => { gathered with total }
  | "page" => (draft.readNat (Decimal.twoPow 32)).map fun page => { gathered with page }
  | _ => (draft.readNat (Decimal.twoPow 32)).map fun limit => { gathered with limit }

/-- The page of a text; numbers that are missing are zero. -/
def parse? (s : String) : Option Page :=
  let read := Json.Draft.readRecord keys Gathered.read ⟨none, 0, 0, 0⟩
  match (Json.Document.read s).readAs read with
  | .ok ⟨some items, total, page, limit⟩ => some ⟨items, total, page, limit⟩
  | _ => none

end Page

/-! ### Replies -/

/-- The page that came from an address, if one came. -/
def BackendReply.page (address : String) : BackendReply → Except ServiceFault Page
  | .unreachable =>
    .error (.external ("backend request failed: error sending request for url (" ++ address ++ ")"))
  | .answered status body =>
    if status = 404 then .error .notFound
    else if Status.isSuccess status then
      match Page.parse? body with
      | some page => .ok page
      | none => .error (.external "invalid backend response: error decoding response body")
    else .error (.external ("backend returned " ++ Status.text status ++ ": " ++ body))

end QueryFilter
