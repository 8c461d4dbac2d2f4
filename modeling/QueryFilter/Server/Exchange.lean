import QueryFilter.Listing.ListParams
import QueryFilter.Server.Body
import QueryFilter.Server.MediaType
import QueryFilter.Server.Options
import QueryFilter.Server.Refusal
import QueryFilter.Server.Route
import QueryFilter.Service.Backend
import QueryFilter.Service.Filters
import QueryFilter.Text.Form

/-!
# Exchanges

What the server does with a request.  It responds at once, or, for a listing, after it has asked the
backend under an address; the exchange is a value either way, and `Exchange.finish` completes it
with any backend.

A request with several faults is refused for the first of these: the path, the query, the body, the
rules of the body, the resource, the service.
-/

namespace QueryFilter

/-- What the server does with a request. -/
inductive Exchange where
  | respond (response : Response)
  /-- Ask the backend under an address, and respond by its reply. -/
  | ask (address : String) (respond : BackendReply → Response)

namespace Exchange

/-- The exchange with the response changed. -/
def map (f : Response → Response) : Exchange → Exchange
  | .respond response => .respond (f response)
  | .ask address answer => .ask address fun reply => f (answer reply)

/-- The response, given what the backend replies under each address. -/
def finish (backend : String → BackendReply) : Exchange → Response
  | .respond response => response
  | .ask address answer => answer (backend address)

/-- The address under which the backend is asked, if it is. -/
def address? : Exchange → Option String
  | .respond _ => none
  | .ask address _ => some address

/-- A response is changed alike before and after the backend was asked. -/
@[simp] theorem finish_map (f : Response → Response) (backend : String → BackendReply)
    (exchange : Exchange) : (exchange.map f).finish backend = f (exchange.finish backend) := by
  cases exchange <;> rfl

/-- Changing a response does not change what the backend is asked. -/
@[simp] theorem address?_map (f : Response → Response) (exchange : Exchange) :
    (exchange.map f).address? = exchange.address? := by
  cases exchange <;> rfl

end Exchange

namespace Server

/-- The response of what may be refused. -/
def responseOf : Except Refusal Response → Response
  | .ok response => response
  | .error refusal => refusal.response

/-! ### The parts of a request -/

/-- The resource of a given name. -/
def resource (name : String) : Except Refusal Resource :=
  (Service.resource name).mapError .service

/-- Bodies hold no more octets than this. -/
def bodyLimit : Nat := 2 * 1024 * 1024

/-- Whether a request says that its body is JSON. -/
def saysJson (request : Request) : Bool :=
  ((request.contentType.bind MediaType.parse?).map MediaType.isJson).getD false

/-- The body of a request. -/
def body {α : Type} (request : Request) (read : String → Except Json.Unreadable α) :
    Except Refusal α :=
  if !saysJson request then .error .contentType
  else if bodyLimit < request.body.utf8ByteSize then .error .bodyLength
  else (read request.body).mapError .body

/-- Refuses a request that breaks rules. -/
def check (violations : List String) : Except Refusal Unit :=
  if violations.isEmpty then .ok () else .error (.rules violations)

/-- The query string of a filter in the query of a request. -/
def filterQuery (request : Request) : Except Refusal (Option String) :=
  match Text.Form.values "q" request.query with
  | [] => .ok none
  | [q] => .ok (some q)
  | _ => .error .query

/-! ### Actions -/

/-- The fields of a resource. -/
def fields (name : String) : Except Refusal Response := do
  let resource ← resource name
  return .data (.array (fieldViewsToJson (Service.fieldTree resource)))

/-- The filter of the conditions in a body. -/
def compile (request : Request) (name : String) : Except Refusal Response := do
  let body ← body request CompileBody.read
  check body.violations
  let resource ← resource name
  let compiled ← (Service.compileInputs resource body.conditions).mapError fun fault =>
    Refusal.service (.invalid fault)
  return .data compiled.toJson

/-- The conditions of a query string. -/
def restore (request : Request) (name : String) : Except Refusal Response := do
  let q ← filterQuery request
  let resource ← resource name
  let views := Service.restoreViews resource q
  return .data (.object [("conditions", .array (views.map ConditionView.toJson))])

/-- The operators of the field in a body. -/
def operators (request : Request) (name : String) : Except Refusal Response := do
  let body ← body request OperatorsBody.read
  check body.violations
  let resource ← resource name
  let views ← (Service.operators resource body.field body.conditions body.editing).mapError
    Refusal.service
  return .data (.array (views.map OperatorView.toJson))

/-- The items of a resource, for which the backend is asked. -/
def items (options : ServerOptions) (request : Request) (name : String) : Exchange :=
  match resource name with
  | .error refusal => .respond refusal.response
  | .ok resource =>
    let params := ListParams.parse request.query
    let query := Service.listQuery resource params.q params.page params.limit
    let address := backendAddress options.backendUrl resource query
    .ask address fun reply =>
      responseOf (((reply.page address).mapError .service).map fun page => .ok page.toJson)

/-- What is done for an action on a resource. -/
def act (options : ServerOptions) (request : Request) (name : String) : Action → Exchange
  | .items => items options request name
  | .fields => .respond (responseOf (fields name))
  | .compile => .respond (responseOf (compile request name))
  | .restore => .respond (responseOf (restore request name))
  | .operators => .respond (responseOf (operators request name))

/-- What is done for a route. -/
def follow (options : ServerOptions) (request : Request) : Route → Exchange
  | .alive => .respond (.ok (.object [("status", .string "ok")]))
  | .resources => .respond (.data Service.resources)
  | .resource segment action =>
    match Route.name? segment with
    | some name => act options request name action
    | none => .respond (Refusal.path.response)

/-- What the server does with a request.  Any path may be asked for its options. -/
def exchange (options : ServerOptions) (request : Request) : Exchange :=
  if request.method = "OPTIONS" then .respond (.bare 200)
  else match Route.ofPath? options.rootPath request.path with
    | none => .respond (.bare 404)
    | some route =>
      if !route.allows request.method then .respond (.bare 405)
      else if request.method = "HEAD" then
        (follow options request route).map Response.withoutContent
      else follow options request route

end Server

end QueryFilter
