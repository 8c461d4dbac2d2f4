import QueryFilter.Query.Bracket

/-!
# Listing requests

A request for one page of a resource: a filter, a page from 1 on and a limit from 1 to 100.  The
bounds are part of the type, so that no request leaves them.
-/

namespace QueryFilter

/-- The page when none is asked for. -/
def defaultPage : Nat := 1

/-- The limit when none is asked for. -/
def defaultLimit : Nat := 20

/-- The greatest limit. -/
def maxLimit : Nat := 100

/-- A request for one page. -/
structure ListQuery where
  filter : Option Object
  page : Nat
  limit : Nat
  page_pos : 1 ≤ page
  limit_pos : 1 ≤ limit
  limit_le : limit ≤ maxLimit

namespace ListQuery

/-- The request for a filter, a page and a limit, which are brought within their bounds. -/
def new (filter : Option Object) (page limit : Option Nat) : ListQuery where
  filter := filter
  page := max (page.getD defaultPage) 1
  limit := min (max (limit.getD defaultLimit) 1) maxLimit
  page_pos := Nat.le_max_right _ _
  limit_pos := by
    have : 1 ≤ max (limit.getD defaultLimit) 1 := Nat.le_max_right _ _
    unfold maxLimit
    omega
  limit_le := Nat.min_le_right _ _

/-- The filter with page and limit beside its own keys. -/
def object (query : ListQuery) : Object :=
  Entries.insert (Entries.insert (query.filter.getD []) "page" (.ofNat query.page)) "limit"
    (.ofNat query.limit)

/-- The request as a query string. -/
def queryString (query : ListQuery) : String :=
  Query.serialize .standard "" (.object query.object)

end ListQuery

/-- One page of items, as the backend answers it. -/
structure Page where
  items : List Json
  total : Nat
  page : Nat
  limit : Nat

/-- A page as data. -/
def Page.toJson (page : Page) : Json :=
  .object [("data", .array page.items), ("total", .ofNat page.total), ("page", .ofNat page.page),
    ("limit", .ofNat page.limit)]

end QueryFilter
