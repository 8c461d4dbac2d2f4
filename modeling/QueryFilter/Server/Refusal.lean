import QueryFilter.Json.Reading
import QueryFilter.Server.Message
import QueryFilter.Service.Fault
import QueryFilter.Text.Split

/-!
# Refusals

Why a request gets no data, and the response that says so: an object with a code, the status and a
message, or plain words when the path or the query cannot be read.
-/

namespace QueryFilter

/-- Why a request is refused. -/
inductive Refusal where
  /-- The escapes of a path name no text. -/
  | path
  /-- A query gives a parameter twice. -/
  | query
  /-- A body is not said to be JSON. -/
  | contentType
  /-- A body is too long. -/
  | bodyLength
  /-- A body cannot be read. -/
  | body (why : Json.Unreadable)
  /-- A body breaks rules. -/
  | rules (violations : List String)
  /-- The service does not answer. -/
  | service (fault : ServiceFault)

namespace Refusal

/-- The status of a refusal. -/
def status : Refusal → Nat
  | .path | .query | .contentType | .bodyLength | .body _ => 400
  | .rules _ => 422
  | .service .notFound | .service .unknownResource => 404
  | .service (.invalid _) => 400
  | .service (.external _) => 502
  | .service .internal => 500

/-- The code of a status. -/
def codeOf (status : Nat) : String :=
  if status = 400 then "E_BAD_REQUEST"
  else if status = 404 then "E_NOT_FOUND"
  else if status = 422 then "E_UNPROCESSABLE_ENTITY"
  else if status = 502 then "E_BAD_GATEWAY"
  else "E_INTERNAL_SERVER_ERROR"

/-- The message of a refusal. -/
def message : Refusal → String
  | .path => "Invalid URL: Invalid UTF-8 in `resource`"
  | .query => "Failed to deserialize query string"
  | .contentType => "Expected request with `Content-Type: application/json`"
  | .bodyLength => "Failed to buffer the request body: length limit exceeded"
  | .body .text => "Failed to parse the request body as JSON"
  | .body .shape => "Failed to deserialize the JSON body into the target type"
  | .rules violations => Text.joinWith "\n" violations
  | .service .notFound => "Resource not found"
  | .service .unknownResource => "Unknown resource"
  | .service (.invalid fault) => fault.message
  | .service (.external words) => words
  | .service .internal => "Internal server error"

/-- Whether a refusal is said in plain words. -/
def isPlain : Refusal → Bool
  | .path | .query => true
  | _ => false

/-- The response that refuses a request. -/
def response (refusal : Refusal) : Response :=
  if refusal.isPlain then ⟨refusal.status, .plain refusal.message⟩
  else
    ⟨refusal.status, .json (.object [("code", .string (codeOf refusal.status)),
      ("status", .ofNat refusal.status), ("message", .string refusal.message)])⟩

end Refusal

end QueryFilter
