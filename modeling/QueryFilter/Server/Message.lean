import QueryFilter.Json.Printer

/-!
# Requests and responses

What a client sends to the server, and what it gets.
-/

namespace QueryFilter

/-- A request. -/
structure Request where
  method : String
  /-- The path, perhaps with a query and a fragment. -/
  target : String
  contentType : Option String
  body : String
  deriving DecidableEq, Repr

/-- What a response holds. -/
inductive Content where
  | empty
  | json (value : Json)
  | plain (text : String)

/-- The text of what a response holds. -/
def Content.text : Content → String
  | .empty => ""
  | .json value => value.text
  | .plain words => words

/-- A response. -/
structure Response where
  status : Nat
  content : Content

namespace Response

/-- A response that holds nothing. -/
def bare (status : Nat) : Response :=
  ⟨status, .empty⟩

/-- A successful response. -/
def ok (value : Json) : Response :=
  ⟨200, .json value⟩

/-- A successful response that wraps what was asked for. -/
def data (value : Json) : Response :=
  ok (.object [("data", value)])

/-- The response without its content. -/
def withoutContent (response : Response) : Response :=
  { response with content := .empty }

end Response

namespace Request

/-- The target without its fragment. -/
def resource (request : Request) : List Char :=
  request.target.toList.takeWhile (· != '#')

/-- The path of a request. -/
def path (request : Request) : List Char :=
  request.resource.takeWhile (· != '?')

/-- The query of a request, which is empty if there is none. -/
def query (request : Request) : String :=
  String.ofList ((request.resource.dropWhile (· != '?')).drop 1)

end Request

end QueryFilter
