import VHono.App
import VHono.OpenApiDocument
import VHono.PathTexts
import VHono.SegmentRoutes
import VHono.TextReplacement

/-! # The paths of the generated document

    The routes of an application are listed with the parameters that the
    segments of their paths name, and each becomes an operation of the item of
    its path, in which the parameters are written in braces. -/

namespace VHono

open ByteString PathSegments

structure RouteInfo (F : Type) where
  path       : ByteString
  method     : ByteString
  pathParams : List ByteString
  handler    : IHandler F

/-- `segment.starts_with(':') && segment.len > 1` -/
def isParamSegment (segment : ByteString) : Bool :=
  startsWith segment (ascii ":") && decide (segment.length > 1)

def extractPathParams (path : ByteString) : List ByteString :=
  ((segments path).filter isParamSegment).map (·.drop 1)

/-- The routes that are registered for a method. -/
def routesOf {F : Type} (method : RouteMethod) (handlers : List (IHandler F)) :
    List (RouteInfo F) :=
  handlers.map (fun handler =>
    { path := handler.path
      method := method.str
      pathParams := extractPathParams handler.path
      handler := handler })

def Hono.getRoutes {E : RegexEngine} {M F : Type} (app : Hono E M F) : List (RouteInfo F) :=
  routesOf .get (app.handlers .get) ++ routesOf .post (app.handlers .post) ++
    routesOf .put (app.handlers .put) ++ routesOf .delete (app.handlers .delete) ++
    routesOf .patch (app.handlers .patch) ++ routesOf .head (app.handlers .head) ++
    routesOf .options (app.handlers .options)

/-- One step of the conversion: `result.replace(':${param_name}', '{${param_name}}')` -/
def bracedName (result paramName : ByteString) : ByteString :=
  replaceStr result (byte ':' :: paramName) (byte '\x7b' :: (paramName ++ [byte '\x7d']))

def convertPathToOpenapiFormat (path : ByteString) : ByteString :=
  (segments path).foldl
    (fun result segment =>
      if isParamSegment segment = true then bracedName result (segment.drop 1) else result) path

section
variable {V F : Type} [Zero V]

def pathParameter (paramName : ByteString) : OpenAPIParameter V where
  name := paramName
  inLocation := ascii "path"
  required := true
  schema := { OpenAPISchema.empty with schemaType := ascii "string" }

def operationOf (route : RouteInfo F) : OpenAPIOperation V where
  responses := InsertionMap.empty.insert (ascii "200") { description := ascii "Successful response" }
  parameters := route.pathParams.map pathParameter

/-- The operation of a method is set; another word than the seven sets none. -/
def OpenAPIPathItem.setOperation (item : OpenAPIPathItem V) (method : ByteString)
    (operation : OpenAPIOperation V) : OpenAPIPathItem V :=
  if method = ascii "GET" then { item with get := operation }
  else if method = ascii "POST" then { item with post := operation }
  else if method = ascii "PUT" then { item with put := operation }
  else if method = ascii "DELETE" then { item with delete := operation }
  else if method = ascii "PATCH" then { item with patch := operation }
  else if method = ascii "HEAD" then { item with head := operation }
  else if method = ascii "OPTIONS" then { item with options := operation }
  else item

def addRouteOperation (paths : InsertionMap ByteString (OpenAPIPathItem V)) (route : RouteInfo F) :
    InsertionMap ByteString (OpenAPIPathItem V) :=
  let openapiPath := convertPathToOpenapiFormat route.path
  let pathItem := (paths.get? openapiPath).getD {}
  paths.insert openapiPath (pathItem.setOperation route.method (operationOf route))

def generateOpenapiPaths (routes : List (RouteInfo F)) :
    InsertionMap ByteString (OpenAPIPathItem V) :=
  routes.foldl addRouteOperation .empty

end

end VHono

/-! ## Names and placeholders, segment by segment

    A slash ends a name, so the router's names of a path are those of its
    segments one after the other.  The placeholders of a path are the names in
    braces in its segments.  The conversion replaces in each segment on its own:
    in a parameter the first of all names that it begins with, in any other
    segment nothing, if no colon in it has a name behind it. -/

namespace VHono

open ByteString PathExpressions PathSegments

namespace PathTemplates

/-! ## The names of the router -/

theorem takeWhile_slash (s b : ByteString) :
    (s ++ byte '/' :: b).takeWhile isParamPart = s.takeWhile isParamPart := by
  induction s with
  | nil => exact List.takeWhile_cons_of_neg (by decide)
  | cons x s ih => rw [List.cons_append, List.takeWhile_cons, List.takeWhile_cons, ih]

theorem identifier_slash (s b : ByteString) : identifier (s ++ byte '/' :: b) = identifier s := by
  rw [identifier, identifier, takeWhile_slash]
  cases s with
  | nil => rfl
  | cons x s => rfl

/-- A slash ends a name. -/
theorem scanParams_slash (a b : ByteString) :
    scanParams 0 (a ++ byte '/' :: b) = scanParams 0 a ++ .text (byte '/') :: scanParams 0 b := by
  induction hlen : a.length using Nat.strong_induction_on generalizing a with
  | _ n ih =>
      cases a with
      | nil => exact scanParams_text (fun h => absurd h.1 (by decide))
      | cons x s =>
          rw [List.length_cons] at hlen
          by_cases hparam : x = byte ':' ∧ identifier s ≠ []
          · obtain ⟨rfl, hname⟩ := hparam
            obtain ⟨name, rest, hidentifier, hs, -⟩ := identifier_prefix s
            have hdrop : (s ++ byte '/' :: b).drop (identifier s).length
                = s.drop (identifier s).length ++ byte '/' :: b := by
              refine List.drop_append_of_le_length ?_
              rw [hidentifier, hs, List.length_append]
              omega
            have hrest := ih (s.drop (identifier s).length).length
              (by rw [List.length_drop]; omega) _ rfl
            rw [List.cons_append, scanParams_param (by rw [identifier_slash]; exact hname),
              identifier_slash, hdrop, hrest, scanParams_param hname]
            rfl
          · have hrest := ih s.length (by omega) s rfl
            rw [List.cons_append, scanParams_text (by rw [identifier_slash]; exact hparam), hrest,
              scanParams_text hparam]
            rfl

theorem paramNames_slash (a b : ByteString) :
    paramNames (a ++ byte '/' :: b) = paramNames a ++ paramNames b := by
  rw [paramNames, scanParams_slash, List.filterMap_append]
  rfl

theorem paramNames_unite (parts : List ByteString) :
    paramNames (unite parts) = parts.flatMap paramNames := by
  induction parts with
  | nil => rfl
  | cons part parts ih =>
      cases parts with
      | nil => rw [unite, List.intercalate_singleton, List.flatMap_singleton]
      | cons second parts =>
          rw [unite] at ih ⊢
          rw [List.intercalate_cons_cons, List.append_assoc, List.singleton_append,
            paramNames_slash, ih]
          rfl

/-- The names of a path are those of its segments. -/
theorem paramNames_segments (path : ByteString) :
    paramNames path = (segments path).flatMap paramNames := by
  rw [← paramNames_unite, unite_segments]

theorem paramNames_text {b : UInt8} {s : ByteString} (h : ¬(b = byte ':' ∧ identifier s ≠ [])) :
    paramNames (b :: s) = paramNames s := by
  rw [paramNames, scanParams_text h]
  rfl

theorem paramNames_colon {s : ByteString} (h : identifier s ≠ []) :
    paramNames (byte ':' :: s)
      = identifier s :: paramNames (s.drop (identifier s).length) := by
  rw [paramNames, scanParams_param h]
  rfl

theorem paramNames_param {name : ByteString} (hne : name ≠ []) (h : identifier name = name) :
    paramNames (byte ':' :: name) = [name] := by
  rw [paramNames_colon (by rw [h]; exact hne), h, List.drop_length]
  rfl

theorem identifier_idem {s : ByteString} (h : identifier s ≠ []) :
    identifier (identifier s) = identifier s := by
  rw [identifier] at h
  split at h
  · rename_i hstart
    have htake : identifier s = s.takeWhile isParamPart := by rw [identifier, if_pos hstart]
    have hhead : (s.takeWhile isParamPart).head? = s.head? := by
      cases s with
      | nil => rfl
      | cons b s =>
          have hb : isParamPart b = true := by
            rw [isParamPart]
            exact Bool.or_eq_true_iff.mpr (.inl hstart)
          rw [List.takeWhile_cons_of_pos hb]
          rfl
    rw [htake, identifier, hhead, if_pos hstart]
    exact List.takeWhile_eq_self_iff.mpr (fun b hb => List.mem_takeWhile_imp hb)
  · exact absurd rfl h

/-- Every name of the router is an identifier. -/
theorem mem_paramNames {path name : ByteString} (h : name ∈ paramNames path) :
    name ≠ [] ∧ identifier name = name := by
  induction hlen : path.length using Nat.strong_induction_on generalizing path with
  | _ n ih =>
      cases path with
      | nil => cases h
      | cons b s =>
          rw [List.length_cons] at hlen
          by_cases hparam : b = byte ':' ∧ identifier s ≠ []
          · obtain ⟨rfl, hname⟩ := hparam
            rw [paramNames_colon hname] at h
            rcases List.mem_cons.mp h with rfl | h
            · exact ⟨hname, identifier_idem hname⟩
            · exact ih _ (by rw [List.length_drop]; omega) h rfl
          · rw [paramNames_text hparam] at h
            exact ih _ (by omega) h rfl

/-- No colon of the text has a letter or an underscore behind it. -/
def NamesNothing (s : ByteString) : Prop :=
  ∀ lead rest, s = lead ++ byte ':' :: rest → (rest.head?.map isParamStart).getD false = false

theorem identifier_nil_iff {s : ByteString} :
    identifier s = [] ↔ (s.head?.map isParamStart).getD false = false := by
  rw [identifier]
  split
  · rename_i hstart
    refine iff_of_false (fun hnil => ?_) (by rw [hstart]; decide)
    cases s with
    | nil => exact absurd hstart (by decide)
    | cons b s =>
        have hb : isParamPart b = true := by
          rw [isParamPart]
          exact Bool.or_eq_true_iff.mpr (.inl hstart)
        rw [List.takeWhile_cons_of_pos hb] at hnil
        cases hnil
  · rename_i hstart
    exact iff_of_true rfl (Bool.eq_false_iff.mpr hstart)

theorem namesNothing_iff (s : ByteString) : paramNames s = [] ↔ NamesNothing s := by
  induction s with
  | nil =>
      refine iff_of_true rfl (fun lead rest h => ?_)
      exact absurd h.symm (by simp)
  | cons b s ih =>
      by_cases hparam : b = byte ':' ∧ identifier s ≠ []
      · obtain ⟨rfl, hname⟩ := hparam
        refine iff_of_false (fun h => ?_) (fun h => ?_)
        · rw [paramNames_colon hname] at h
          cases h
        · exact hname (identifier_nil_iff.mpr (h [] s rfl))
      · rw [paramNames_text hparam, ih]
        constructor
        · intro h lead rest hsplit
          cases lead with
          | nil =>
              obtain ⟨rfl, rfl⟩ := List.cons.inj hsplit
              refine identifier_nil_iff.mp ?_
              by_contra hne
              exact hparam ⟨rfl, hne⟩
          | cons x lead => exact h lead rest (List.cons.inj hsplit).2
        · intro h lead rest hsplit
          exact h (b :: lead) rest (congrArg (b :: ·) hsplit)

/-! ## Placeholders -/

/-- The names in braces, from the left; the counter skips the bytes of one already taken. -/
def bracesFrom : Nat → ByteString → List ByteString
  | _, [] => []
  | skip + 1, _ :: s => bracesFrom skip s
  | 0, b :: s =>
    if b = byte '\x7b' ∧ byte '\x7d' ∈ s then
      let name := s.takeWhile (· ≠ byte '\x7d')
      name :: bracesFrom (name.length + 1) s
    else bracesFrom 0 s

def segmentPlaceholders (segment : ByteString) : List ByteString := bracesFrom 0 segment

/-- The placeholders of a path; none goes over a slash. -/
def placeholders (path : ByteString) : List ByteString :=
  (segments path).flatMap segmentPlaceholders

/-- A name in braces. -/
def inBraces (name : ByteString) : ByteString := byte '\x7b' :: (name ++ [byte '\x7d'])

theorem bracesFrom_skip : ∀ (t s : ByteString), bracesFrom t.length (t ++ s) = bracesFrom 0 s
  | [], _ => rfl
  | _ :: t, s => bracesFrom_skip t s

theorem segmentPlaceholders_inBraces {name : ByteString} (h : byte '\x7d' ∉ name) :
    segmentPlaceholders (inBraces name) = [name] := by
  have hall : ∀ b ∈ name, decide (b ≠ byte '\x7d') = true := by
    intro b hb
    refine decide_eq_true ?_
    rintro rfl
    exact h hb
  have htake : (name ++ [byte '\x7d']).takeWhile (· ≠ byte '\x7d') = name :=
    (takeWhile_append_all hall).trans (List.append_nil name)
  have hskip := bracesFrom_skip (name ++ [byte '\x7d']) []
  rw [List.append_nil, List.length_append, List.length_singleton] at hskip
  rw [segmentPlaceholders, inBraces, bracesFrom,
    if_pos ⟨rfl, List.mem_append_right _ (List.mem_singleton.mpr rfl)⟩]
  dsimp only
  rw [htake, hskip]
  rfl

/-- No brace of the text opens before one that closes. -/
def HoldsNoBraces (s : ByteString) : Prop :=
  ∀ lead rest, s = lead ++ byte '\x7b' :: rest → byte '\x7d' ∉ rest

theorem holdsNoBraces_iff (s : ByteString) : segmentPlaceholders s = [] ↔ HoldsNoBraces s := by
  induction s with
  | nil =>
      refine iff_of_true rfl (fun lead rest h => ?_)
      exact absurd h.symm (by simp)
  | cons b s ih =>
      rw [segmentPlaceholders, bracesFrom]
      by_cases hopen : b = byte '\x7b' ∧ byte '\x7d' ∈ s
      · rw [if_pos hopen]
        refine iff_of_false (fun hnil => by cases hnil) (fun h => ?_)
        exact h [] s (by rw [hopen.1]; rfl) hopen.2
      · rw [if_neg hopen]
        refine ih.trans ⟨fun h lead rest hsplit => ?_, fun h lead rest hsplit => ?_⟩
        · cases lead with
          | nil =>
              obtain ⟨rfl, rfl⟩ := List.cons.inj hsplit
              exact fun hclose => hopen ⟨rfl, hclose⟩
          | cons x lead => exact h lead rest (List.cons.inj hsplit).2
        · exact h (b :: lead) rest (congrArg (b :: ·) hsplit)

/-! ## The conversion -/

/-- The segment with its name in braces, if it is a parameter. -/
def brace (segment : ByteString) : ByteString :=
  if isParamSegment segment = true then inBraces (segment.drop 1) else segment

theorem isParamSegment_iff {s : ByteString} :
    isParamSegment s = true ↔ ∃ name, name ≠ [] ∧ s = byte ':' :: name := by
  rw [isParamSegment, Bool.and_eq_true, decide_eq_true_iff]
  constructor
  · rintro ⟨hstart, hlen⟩
    obtain ⟨name, rfl⟩ := startsWith_iff.mp hstart
    refine ⟨name, ?_, rfl⟩
    rintro rfl
    exact absurd hlen (by decide)
  · rintro ⟨name, hne, rfl⟩
    have hpos := List.length_pos_iff.mpr hne
    exact ⟨startsWith_append [byte ':'] name, by rw [List.length_cons]; omega⟩

theorem mem_extractPathParams {path name : ByteString} (h : name ∈ extractPathParams path) :
    name ≠ [] ∧ byte '/' ∉ name := by
  obtain ⟨s, hs, rfl⟩ := List.mem_map.mp h
  obtain ⟨hmem, hparam⟩ := List.mem_filter.mp hs
  obtain ⟨name, hne, rfl⟩ := isParamSegment_iff.mp hparam
  exact ⟨hne, fun hslash => not_slash_of_mem_segments _ hmem (List.mem_cons_of_mem _ hslash)⟩

theorem convert_eq_foldl (path : ByteString) :
    convertPathToOpenapiFormat path = (extractPathParams path).foldl bracedName path := by
  rw [convertPathToOpenapiFormat, extractPathParams, List.foldl_map, List.foldl_filter]

theorem foldl_bracedName_unite {names : List ByteString} (h : ∀ name ∈ names, byte '/' ∉ name)
    (parts : List ByteString) :
    names.foldl bracedName (unite parts) = unite (parts.map (names.foldl bracedName)) := by
  induction names generalizing parts with
  | nil =>
      rw [List.foldl_nil]
      exact congrArg unite (List.map_id' parts).symm
  | cons name names ih =>
      have hslash : byte '/' ∉ byte ':' :: name := by
        rw [List.mem_cons, not_or]
        exact ⟨by decide, h name (List.mem_cons_self ..)⟩
      have hstep : bracedName (unite parts) name = unite (parts.map (bracedName · name)) :=
        replaceStr_intercalate hslash (List.cons_ne_nil _ _) _ parts
      rw [List.foldl_cons, hstep, ih (fun other hother => h other (List.mem_cons_of_mem _ hother)),
        List.map_map]
      rfl

/-- **THE CONVERSION** replaces in each segment on its own. -/
theorem convert_eq (path : ByteString) : convertPathToOpenapiFormat path
    = unite ((segments path).map ((extractPathParams path).foldl bracedName)) := by
  rw [← foldl_bracedName_unite (fun name hname => (mem_extractPathParams hname).2), unite_segments]
  exact convert_eq_foldl path

theorem foldl_bracedName_free {s : ByteString} (h : byte ':' ∉ s) (names : List ByteString) :
    names.foldl bracedName s = s := by
  induction names with
  | nil => rfl
  | cons name names ih =>
      have hstep : bracedName s name = s :=
        replaceStr_free _ (not_containsStr_of_mem (List.mem_cons_self ..) h)
      rw [List.foldl_cons, hstep, ih]

/-- Where no colon has a name behind it, nothing is replaced. -/
theorem foldl_bracedName_literal {s : ByteString} (h : NamesNothing s) {names : List ByteString}
    (hnames : ∀ name ∈ names, name ≠ [] ∧ identifier name = name) :
    names.foldl bracedName s = s := by
  induction names with
  | nil => rfl
  | cons name names ih =>
      obtain ⟨hne, hname⟩ := hnames name (List.mem_cons_self ..)
      have hfree : containsStr s (byte ':' :: name) = false := by
        rw [Bool.eq_false_iff]
        intro hcontains
        obtain ⟨lead, rest, hsplit⟩ := containsStr_iff_within.mp hcontains
        have hnone := h lead (name ++ rest) (by rw [← hsplit]; simp)
        have hhead : (name ++ rest).head? = name.head? := by
          cases name with
          | nil => exact absurd rfl hne
          | cons b name => rfl
        rw [hhead, (identifier_part hne hname).1] at hnone
        exact Bool.noConfusion hnone
      have hstep : bracedName s name = s := replaceStr_free _ hfree
      rw [List.foldl_cons, hstep]
      exact ih (fun other hother => hnames other (List.mem_cons_of_mem _ hother))

/-- In a parameter the first name that it begins with is replaced, and nothing after it. -/
theorem foldl_bracedName_param {text : ByteString} (htext : byte ':' ∉ text)
    {names : List ByteString} (hnames : ∀ name ∈ names, byte ':' ∉ name) :
    names.foldl bracedName (byte ':' :: text)
      = match names.find? (startsWith text) with
        | some name => inBraces name ++ text.drop name.length
        | none => byte ':' :: text := by
  induction names with
  | nil => rfl
  | cons name names ih =>
      have hstep : bracedName (byte ':' :: text) name = if startsWith text name = true
          then inBraces name ++ text.drop name.length else byte ':' :: text :=
        replaceStr_headed htext _
      rw [List.foldl_cons, hstep, List.find?_cons]
      cases startsWith text name with
      | true =>
          refine foldl_bracedName_free (fun hmem => ?_) names
          rcases List.mem_append.mp hmem with hname | hrest
          · rcases List.mem_cons.mp hname with heq | hname
            · exact absurd heq (by decide)
            · rcases List.mem_append.mp hname with hin | hclose
              · exact hnames name (List.mem_cons_self ..) hin
              · exact absurd (List.mem_singleton.mp hclose) (by decide)
          · exact htext (List.mem_of_mem_drop hrest)
      | false => exact ih (fun other hother => hnames other (List.mem_cons_of_mem _ hother))

end PathTemplates

end VHono
