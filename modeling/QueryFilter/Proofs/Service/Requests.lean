import QueryFilter.Listing.ListParams
import QueryFilter.Proofs.Filter.WellFormed
import QueryFilter.Proofs.Service.Published

/-!
# What a listing asks for

A listing asks the backend for a page of the items that a filter selects.  Whatever the query string
is from which the filter is read, the filter is one that the backend understands
(`sanitize_wellFormed`).  And whatever the filter is, the request asks for one page with one limit,
both within their bounds: no key or text of the filter reads as another parameter
(`queryString_asksFor`).
-/

namespace QueryFilter

open Decimal (natText)

/-- The pairs of a query string below a key. -/
def Query.leavesAt (key query : String) : List Query.Leaf :=
  (pairLeaves query).filter fun leaf => leaf.path.head? == some key

/-- A query string asks for a page and a limit within their bounds: it has one pair for either, and
it reads as the texts of both beside what survives of the other entries of a filter. -/
structure AsksFor (query : String) (filter : Object) (page limit : Nat) : Prop where
  page_pos : 1 ≤ page
  limit_pos : 1 ≤ limit
  limit_le : limit ≤ maxLimit
  onePage : Query.leavesAt "page" query = [⟨["page"], some (natText page)⟩]
  oneLimit : Query.leavesAt "limit" query = [⟨["limit"], some (natText limit)⟩]
  reads : ∃ read, Query.deserialize query = some read ∧ Entries.Distinct read ∧
    Entries.get? read "page" = some (.string (natText page)) ∧
    Entries.get? read "limit" = some (.string (natText limit)) ∧
    Entries.without "limit" (Entries.without "page" read) =
      Query.survivingEntries .standard
        (Entries.without "limit" (Entries.without "page" filter))

namespace ListQuery

/-! ### The entries of a request -/

/-- The page of a query is sent as it is. -/
theorem get?_page (query : ListQuery) :
    Entries.get? query.object "page" = some (.ofNat query.page) := by
  rw [object, Entries.get?_insert_of_ne (by decide), Entries.get?_insert_self]

/-- The limit of a query is sent as it is. -/
theorem get?_limit (query : ListQuery) :
    Entries.get? query.object "limit" = some (.ofNat query.limit) :=
  Entries.get?_insert_self _ _ _

/-- Beside page and limit a request has the entries of its filter. -/
theorem without_object (query : ListQuery) :
    Entries.without "limit" (Entries.without "page" query.object) =
      Entries.without "limit" (Entries.without "page" (query.filter.getD [])) := by
  rw [object, Entries.without_comm, Entries.without_insert, Entries.without_comm,
    Entries.without_insert]

/-- The entry of a number is one pair of the query string and is read as the text of the number. -/
theorem reads_number {entries : Object} (h : EntriesWellKeyed entries) {key : String}
    (hkey : key ≠ modeKey) {n : Nat} (hget : Entries.get? entries key = some (.ofNat n)) :
    Query.leavesAt key (Query.serialize .standard "" (.object entries)) =
        [⟨[key], some (natText n)⟩] ∧
      Entries.get? (Query.survivingEntries .standard entries) key =
        some (.string (natText n)) := by
  have hmem := Entries.mem_of_get? hget
  have homits := Query.omits_eq_false hkey .standard (.ofNat n)
  have hsurvives := Query.get?_survivingEntries h.distinct hmem homits
  have hne : Query.survivingEntries .standard entries ≠ [] := by
    intro hnil
    rw [hnil] at hsurvives
    exact absurd hsurvives.symm (by simp [Json.ofNat, Query.survivor])
  rw [hsurvives, Query.leavesAt, Query.pairLeaves_serialize h hne,
    Query.filter_entryLeaves h.distinct hmem homits]
  simp [Json.ofNat, Query.leaves, Query.survivor, Query.Leaf.under, Number.text,
    Decimal.intText_natCast]

/-- A request with a filter without empty keys asks for its page and its limit. -/
theorem asksFor (query : ListQuery) (h : EntriesWellKeyed (query.filter.getD [])) :
    AsksFor query.queryString (query.filter.getD []) query.page query.limit := by
  have hkeyed := Service.wellKeyed_object query h
  obtain ⟨hpage, hreadPage⟩ := reads_number hkeyed (by decide) query.get?_page
  obtain ⟨hlimit, hreadLimit⟩ := reads_number hkeyed (by decide) query.get?_limit
  have hne : Query.survivingEntries .standard query.object ≠ [] := by
    intro hnil
    rw [hnil] at hreadPage
    exact absurd hreadPage (by simp)
  have hread := Query.deserialize_serialize hkeyed hne
  have hdistinct : Entries.Distinct (Query.survivingEntries .standard query.object) := by
    have hwritten := Query.wellKeyed_deserialize query.queryString
    rw [queryString, hread] at hwritten
    exact hwritten.distinct
  refine ⟨query.page_pos, query.limit_pos, query.limit_le, hpage, hlimit, _, hread, hdistinct,
    hreadPage, hreadLimit, ?_⟩
  rw [Query.without_survivingEntries, Query.without_survivingEntries, without_object]

end ListQuery

namespace Service

open Catalog Compile

/-! ### Requests of the service -/

/-- What is left of a query string is what its object compiles to after it was restored. -/
theorem getD_sanitize (resource : Resource) (q : Option String) :
    (sanitize resource q).getD [] =
      recompiled (Scope.root resource) ((q.bind Query.deserialize).getD []) := by
  rw [sanitize, getD_compile, restoreQuery_eq]
  rfl

/-- Intake: whatever the query string is, the filter that is read from it is well-formed.  Every key
is the target of a field that the resource reaches, with operators and operands of the type of the
field below it, or with well-formed filters if the field is a relation. -/
theorem sanitize_wellFormed (resource : Resource) (q : Option String) :
    WellFormed resource ((sanitize resource q).getD []) := by
  rw [getD_sanitize]
  exact wellFormed_recompiled .start _

/-- Integrity: no filter changes the page or the limit of a request, or adds a parameter to it.  So
a listing asks for one page and one limit, within their bounds, whatever its query string is. -/
theorem queryString_asksFor :
    (∀ (filter : Option Object) (page limit : Option Nat), EntriesWellKeyed (filter.getD []) →
      AsksFor (ListQuery.new filter page limit).queryString (filter.getD [])
        (max (page.getD defaultPage) 1) (min (max (limit.getD defaultLimit) 1) maxLimit)) ∧
    ∀ (resource : Resource) (raw : String),
      let params := ListParams.parse raw
      AsksFor (listQuery resource params.q params.page params.limit).queryString
        ((sanitize resource params.q).getD [])
        (max (params.page.getD defaultPage) 1)
        (min (max (params.limit.getD defaultLimit) 1) maxLimit) := by
  have hnew : ∀ (filter : Option Object) (page limit : Option Nat),
      EntriesWellKeyed (filter.getD []) →
      AsksFor (ListQuery.new filter page limit).queryString (filter.getD [])
        (max (page.getD defaultPage) 1) (min (max (limit.getD defaultLimit) 1) maxLimit) :=
    fun filter page limit h => (ListQuery.new filter page limit).asksFor h
  refine ⟨hnew, fun resource raw => hnew _ _ _ ?_⟩
  rw [getD_sanitize]
  exact (wellFormed_recompiled .start _).wellKeyed

/-! ### An example -/

/-- A filter that tries to ask for another page and another limit, by its keys and in its texts. -/
def intruder : Object :=
  [("page", .string "7&limit=1000"), ("name&limit=1000", .object [("contains", .string "&page=9")]),
    ("limit", .object [("[page]", .ofNat 3)])]

/-- The intruder gets the first page with the usual limit. -/
theorem intruder_asksFor :
    EntriesWellKeyed intruder ∧
      AsksFor (ListQuery.new (some intruder) none none).queryString intruder 1 20 := by
  have hkeyed : EntriesWellKeyed intruder := by
    simp [intruder, EntriesWellKeyed, Json.WellKeyed, Json.ofNat]
  exact ⟨hkeyed, queryString_asksFor.1 (some intruder) none none hkeyed⟩

end Service

end QueryFilter
