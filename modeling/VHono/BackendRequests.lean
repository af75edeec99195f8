import Mathlib.Data.List.TakeWhile
import VHono.PicoevRequest
import VHono.UsocketsRequest

/-! # The two backends' view of a request

    Both backends receive the same message: picoev already parsed, uSockets as
    raw bytes.  Method, path and body always agree.  The URL of the uSockets
    context is cut at the question mark, and its header table is filled only
    when a matched route meets a WebSocket upgrade; elsewhere it is empty. -/

namespace VHono

open ByteString HttpGrammar

/-- The message as `picohttpparser` hands it over. -/
def picoRequest (r : Request) : PicoRequest where
  method := r.method
  path := r.target
  headers := fieldPairs r.fields
  body := r.body

/-- The context a handler sees under picoev. -/
def picoevHandlerContext (r : Request) (params : InsertionMap ByteString ByteString) :
    Context :=
  createPicoevContext (picoRequest r) params (parsePathAndQuery r.target).2

/-- The context a handler sees under uSockets: that of a matched route, or that of
    the not-found handler. -/
def usocketsHandlerContext (raw : ByteString) (params : InsertionMap ByteString ByteString)
    (matched : Bool) : Context :=
  let req := parseHttpRequestUsockets raw
  if matched && isUsocketsWsUpgrade raw then createUsocketsContextWithHeaders raw req params
  else createUsocketsContext req params

/-- The header fields reach the uSockets context. -/
def HeadersRead (raw : ByteString) (matched : Bool) : Prop :=
  matched = true ∧ isUsocketsWsUpgrade raw = true

variable (params params' : InsertionMap ByteString ByteString)

theorem usockets_header_read {r : Request} {matched : Bool}
    (h : HeadersRead r.render matched) :
    (usocketsHandlerContext r.render params matched).req.header = fieldPairs r.fields := by
  have hcond : (matched && isUsocketsWsUpgrade r.render) = true := by
    rw [h.1, h.2]
    rfl
  rw [usocketsHandlerContext, if_pos hcond]
  exact headerTable_render r

theorem usockets_header_unread {r : Request} {matched : Bool}
    (h : ¬ HeadersRead r.render matched) :
    (usocketsHandlerContext r.render params matched).req.header = [] := by
  have hcond : ¬ (matched && isUsocketsWsUpgrade r.render) = true := by
    rw [Bool.and_eq_true]
    exact h
  rw [usocketsHandlerContext, if_neg hcond]
  rfl

/-- Reading the header fields changes nothing else that a handler sees. -/
theorem usockets_view (raw : ByteString) (matched : Bool) :
    (usocketsHandlerContext raw params matched).view
      = { (createUsocketsContext (parseHttpRequestUsockets raw) params).view with
          header := (usocketsHandlerContext raw params matched).req.header } := by
  rw [usocketsHandlerContext]
  dsimp only
  split
  · rfl
  · rfl

/-- **WHAT AGREES.**  Method, path and body are the same under both backends. -/
theorem method_path_body_agree (r : Request) (matched : Bool) :
    (picoevHandlerContext r params).view.method
        = (usocketsHandlerContext r.render params' matched).view.method ∧
    (picoevHandlerContext r params).view.path
        = (usocketsHandlerContext r.render params' matched).view.path ∧
    (picoevHandlerContext r params).view.body
        = (usocketsHandlerContext r.render params' matched).view.body := by
  obtain ⟨hmethod, hpath, hbody, -⟩ := parseHttpRequestUsockets_render r
  rw [usockets_view]
  refine ⟨?_, ?_, hbody.symm⟩
  · show parseHttpMethodFast r.method
      = parseHttpMethodUsockets (parseHttpRequestUsockets r.render).method
    rw [hmethod]
    rfl
  · show extractPathOnly r.target = (parseHttpRequestUsockets r.render).path
    rw [hpath, extractPathOnly]
    congr 1
    funext b
    simp [bne, Bool.beq_eq_decide_eq]

/-- The header tables agree exactly when there is nothing to read or it is read. -/
theorem header_agree_iff (r : Request) (matched : Bool) :
    (picoevHandlerContext r params).view.header
        = (usocketsHandlerContext r.render params' matched).view.header
      ↔ r.fields = [] ∨ HeadersRead r.render matched := by
  have hpico : (picoevHandlerContext r params).view.header = fieldPairs r.fields :=
    addAll_fieldPairs r.fields
  rw [hpico]
  by_cases hread : HeadersRead r.render matched
  · have husock : (usocketsHandlerContext r.render params' matched).view.header
        = fieldPairs r.fields := usockets_header_read params' hread
    rw [husock]
    exact ⟨fun _ => Or.inr hread, fun _ => rfl⟩
  · have husock : (usocketsHandlerContext r.render params' matched).view.header = [] :=
      usockets_header_unread params' hread
    rw [husock]
    constructor
    · intro h
      exact Or.inl (List.map_eq_nil_iff.mp h)
    · rintro (h | h)
      · rw [h]
        rfl
      · exact absurd h hread

/-- The URLs agree exactly when the target has no question mark. -/
theorem url_agree_iff (r : Request) (matched : Bool) :
    (picoevHandlerContext r params).view.url
        = (usocketsHandlerContext r.render params' matched).view.url
      ↔ byte '?' ∉ r.target := by
  obtain ⟨-, hpath, -, -⟩ := parseHttpRequestUsockets_render r
  rw [usockets_view]
  show r.target = (parseHttpRequestUsockets r.render).path ↔ _
  rw [hpath]
  constructor
  · intro h hmem
    rw [h] at hmem
    have := List.mem_takeWhile_imp hmem
    exact absurd this (by decide)
  · intro h
    have hall : ∀ b ∈ r.target, (b != byte '?') = true :=
      fun b hb => bne_iff_ne.mpr (fun heq => h (heq ▸ hb))
    have htake := takeWhile_append_all (s := []) hall
    rw [List.append_nil, List.takeWhile_nil, List.append_nil] at htake
    exact htake.symm

/-- **THE BACKENDS AGREE.**  On a well-formed message a handler sees the same
    method, path, URL, query, header table and body under both backends if and
    only if the target has no question mark and no header field goes unread. -/
theorem views_agree_iff (r : Request) (matched : Bool) :
    (picoevHandlerContext r params).view = (usocketsHandlerContext r.render params' matched).view
      ↔ byte '?' ∉ r.target ∧ (r.fields = [] ∨ HeadersRead r.render matched) := by
  constructor
  · intro h
    exact ⟨(url_agree_iff params params' r matched).mp (congrArg RequestView.url h),
      (header_agree_iff params params' r matched).mp (congrArg RequestView.header h)⟩
  · rintro ⟨hquery, hheader⟩
    obtain ⟨hmethod, hpath, hbody⟩ := method_path_body_agree params params' r matched
    have hurl := (url_agree_iff params params' r matched).mpr hquery
    have hhead := (header_agree_iff params params' r matched).mpr hheader
    have hempty : (picoevHandlerContext r params).view.query
        = (usocketsHandlerContext r.render params' matched).view.query := by
      rw [usockets_view]
      show (parsePathAndQuery r.target).2 = (parseHttpRequestUsockets r.render).query
      rw [parsePathAndQuery_plain hquery, (parseHttpRequestUsockets_render r).2.2.2 hquery]
    generalize (picoevHandlerContext r params).view = v at *
    generalize (usocketsHandlerContext r.render params' matched).view = w at *
    cases v
    cases w
    simp only [RequestView.mk.injEq]
    exact ⟨hmethod, hpath, hurl, hempty, hhead, hbody⟩

/-! ## A request with a query -/

/-- `GET /x?a=1 HTTP/1.1` without header fields. -/
def queryRequest : Request where
  method := ascii "GET"
  target := ascii "/x?a=1"
  minor := byte '1'
  fields := []
  body := []
  method_ne := by decide
  method_token := List.all_eq_true.mp (by decide)
  target_ne := by decide
  target_bytes := List.all_eq_true.mp (by decide)
  minor_digit := by decide

/-- Its URL is `/x?a=1` under picoev and `/x` under uSockets. -/
theorem query_missing_from_url :
    (picoevHandlerContext queryRequest .empty).view
      ≠ (usocketsHandlerContext queryRequest.render .empty true).view := by
  intro h
  exact absurd (congrArg RequestView.url h) (by decide)

end VHono
