import QueryFilter.Server.Message
import QueryFilter.Text.Percent
import QueryFilter.Text.Split

/-!
# Routes

The paths that the server knows, below its root path.  Most of them name a resource in one segment
that is not empty; the segment may be written with escapes, the others may not.
-/

namespace QueryFilter

/-- What is asked of a resource. -/
inductive Action where
  | items
  | fields
  | compile
  | restore
  | operators
  deriving DecidableEq, Repr

/-- What a path stands for. -/
inductive Route where
  /-- Whether the server is alive. -/
  | alive
  | resources
  /-- An action on the resource that a segment names. -/
  | resource (segment : List Char) (action : Action)
  deriving DecidableEq, Repr

namespace Route

/-- The segments behind the resource, for each action. -/
def tails : List (List String × Action) :=
  [(["items"], .items), (["fields"], .fields), (["filters", "compile"], .compile),
    (["filters", "restore"], .restore), (["filters", "operators"], .operators)]

/-- The route of the segments of a path. -/
def ofSegments? : List (List Char) → Option Route
  | [] :: first :: rest =>
    let tail := rest.map String.ofList
    if first = "health".toList ∧ tail = ["live"] then some .alive
    else if first = "resources".toList then
      match rest with
      | [] => some .resources
      | segment :: rest =>
        if segment.isEmpty then none
        else (tails.lookup (rest.map String.ofList)).map (.resource segment)
    else none
  | _ => none

/-- The route of a path below a root path. -/
def ofPath? (root : String) (path : List Char) : Option Route :=
  (Text.after? root.toList path).bind fun rest => ofSegments? (Text.piecesAt '/' rest)

/-- Whether a route changes with the body of a request, which is then sent with `POST`; the other
routes are read with `GET`. -/
def takesBody : Route → Bool
  | .resource _ .compile | .resource _ .operators => true
  | _ => false

/-- Whether a route can be asked for by a method.  What can be read can also be asked for without
content. -/
def allows (route : Route) (method : String) : Bool :=
  if route.takesBody then method == "POST" else method == "GET" || method == "HEAD"

/-- The resource that a segment names, unless its escapes name no text. -/
def name? (segment : List Char) : Option String :=
  (Text.Percent.decode segment).map String.ofList

end Route

end QueryFilter
