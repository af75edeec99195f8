import VHono.CookieRoundTrip
import VHono.UserAgent

/-! # Several cookies in one response

    All cookies of a response are joined with commas into one `Set-Cookie`
    field.  A user agent reads one cookie from it: the name and the value of
    the first call, with the attributes of all of them. -/

namespace VHono

open ByteString Effects UserAgent

/-- A call of `set_cookie` or `delete_cookie`. -/
inductive SetCookieCall
  | set (name value : ByteString) (options : List CookieOptions)
  | delete (name : ByteString) (options : List CookieOptions)

namespace SetCookieCall

def name : SetCookieCall → ByteString
  | set name _ _ => name
  | delete name _ => name

def value : SetCookieCall → ByteString
  | set _ value _ => value
  | delete _ _ => []

/-- The options the cookie string is built with. -/
def opts : SetCookieCall → CookieOptions
  | set _ _ options => CookieOptions.first options
  | delete _ options => (CookieOptions.first options).deleting

def run (c : Context) : SetCookieCall → Except CookieFailure Context
  | set name value options => setCookie c name value options
  | delete name options => deleteCookie c name options

/-- The cookie string of a call. -/
def line (call : SetCookieCall) : ByteString :=
  (buildCookieString call.name call.value call.opts).getD []

theorem run_eq (c : Context) (call : SetCookieCall) : call.run c =
    match buildCookieString call.name call.value call.opts with
    | some cookieStr => .ok (c.appendSetCookie cookieStr)
    | none => .error .panic := by
  cases call with
  | set => rfl
  | delete => rfl

theorem buildCookieString_isSome_iff (name value : ByteString) (opts : CookieOptions) :
    (buildCookieString name value opts).isSome = true ↔ opts.Printable := by
  rw [buildCookieString, cookieAttributes, Option.isSome_map, Option.isSome_map,
    expiresAttribute_isSome_iff]

theorem run_ok {c : Context} {call : SetCookieCall} (h : call.opts.Printable) :
    call.run c = .ok (c.appendSetCookie call.line) := by
  obtain ⟨s, hs⟩ := Option.isSome_iff_exists.mp
    ((buildCookieString_isSome_iff call.name call.value call.opts).mpr h)
  rw [run_eq, line, hs]
  rfl

theorem printable_of_run {c c' : Context} {call : SetCookieCall} (h : call.run c = .ok c') :
    call.opts.Printable := by
  rw [← buildCookieString_isSome_iff call.name call.value]
  rw [run_eq] at h
  cases hs : buildCookieString call.name call.value call.opts with
  | none =>
      rw [hs] at h
      cases h
  | some s => rfl

end SetCookieCall

/-- The calls of a handler on its context. -/
def runCalls (c : Context) (calls : List SetCookieCall) : Except CookieFailure Context :=
  calls.foldlM (fun c call => call.run c) c

/-! ## The line of several calls -/

theorem intercalate_concat {sep s : ByteString} {parts : List ByteString} (h : parts ≠ []) :
    sep.intercalate (parts ++ [s]) = sep.intercalate parts ++ (sep ++ s) := by
  induction parts with
  | nil => exact absurd rfl h
  | cons first rest ih =>
      cases rest with
      | nil =>
          rw [List.singleton_append, List.intercalate_cons_cons, List.intercalate_singleton,
            List.intercalate_singleton, List.append_assoc]
      | cons second rest =>
          have hrest := ih (List.cons_ne_nil _ _)
          rw [List.cons_append] at hrest
          rw [List.cons_append, List.cons_append, List.intercalate_cons_cons, hrest,
            List.intercalate_cons_cons]
          simp only [List.append_assoc]

/-- A cookie string ends in its `SameSite` attribute. -/
theorem line_eq {call : SetCookieCall} (h : call.opts.Printable) : ∃ body, call.line
    = body ++ byte ';' :: (ascii " " ++ call.opts.sameSite.attribute) := by
  obtain ⟨expires, hexpires⟩ := Option.isSome_iff_exists.mp
    ((expiresAttribute_isSome_iff call.opts).mpr h)
  rw [SetCookieCall.line, buildCookieString, cookieAttributes, hexpires]
  rw [Option.map_some, Option.map_some, Option.getD_some, ← List.cons_append,
    intercalate_concat (List.cons_ne_nil _ _)]
  exact ⟨_, rfl⟩

section Reading

variable (site : Site)

/-- The attributes behind the name and the value of a line. -/
def attributesIn (line : ByteString) : Attributes :=
  readAttributes site (line.splitOn (byte ';')).tail

theorem splitOn_prefix {c : UInt8} {p : ByteString} (hp : c ∉ p) (s : ByteString) :
    (p ++ s).splitOn c = (s.splitOn c).modifyHead (p ++ ·) := by
  induction p with
  | nil =>
      rw [List.nil_append]
      cases s.splitOn c with
      | nil => rfl
      | cons first rest => rfl
  | cons b p ih =>
      have hb : (b == c) = false :=
        beq_eq_false_iff_ne.mpr (fun h => hp (h ▸ List.mem_cons_self ..))
      rw [List.cons_append, List.splitOn_cons_eq_if_modifyHead, hb, if_neg Bool.false_ne_true,
        ih (fun h => hp (List.mem_cons_of_mem _ h)), List.modifyHead_modifyHead]
      rfl

/-- A text that begins with `SameSite=` is no attribute that counts. -/
theorem attributeOf_sameSite (sameSite : SameSite) (s : ByteString) :
    attributeOf site (ascii " " ++ sameSite.attribute ++ s) = {} := by
  obtain ⟨value, hvalue⟩ : ∃ value, ascii " " ++ sameSite.attribute ++ s
      = ascii " SameSite" ++ byte '=' :: value := by
    cases sameSite with
    | strict => exact ⟨ascii "Strict" ++ s, rfl⟩
    | lax => exact ⟨ascii "Lax" ++ s, rfl⟩
    | none_ => exact ⟨ascii "None" ++ s, rfl⟩
  rw [hvalue, attributeOf_pair site (by decide)]
  rfl

theorem not_mem_sameSite (sameSite : SameSite) :
    byte ';' ∉ ascii " " ++ sameSite.attribute ++ ascii ", " := by
  cases sameSite <;> decide

theorem splitOn_sameSite (body : ByteString) (sameSite : SameSite) :
    (body ++ byte ';' :: (ascii " " ++ sameSite.attribute)).splitOn (byte ';')
      = body.splitOn (byte ';') ++ [ascii " " ++ sameSite.attribute] := by
  rw [List.splitOn_append_cons_self]
  refine congrArg (_ ++ ·) (List.splitOn_eq_singleton ?_)
  exact fun h => not_mem_sameSite sameSite (List.mem_append_left _ h)

theorem readAttributes_sameSite (sameSite : SameSite) :
    readAttributes site [ascii " " ++ sameSite.attribute] = {} := by
  have hattribute := attributeOf_sameSite site sameSite []
  rw [List.append_nil] at hattribute
  rw [readAttributes_cons, hattribute]
  rfl

/-- A line ends in its `SameSite` attribute, so the rest of it is all that is read. -/
theorem readPieces_sameSite (body : ByteString) (sameSite : SameSite) :
    readPieces site ((body ++ byte ';' :: (ascii " " ++ sameSite.attribute)).splitOn (byte ';'))
      = readPieces site (body.splitOn (byte ';')) := by
  obtain ⟨pair, avs, hbody⟩ := List.exists_cons_of_ne_nil (List.splitOn_ne_nil (byte ';') body)
  rw [splitOn_sameSite, hbody, List.cons_append, readPieces, readPieces, readAttributes_append,
    readAttributes_sameSite, Attributes.after_none]

theorem attributesIn_sameSite (body : ByteString) (sameSite : SameSite) :
    attributesIn site (body ++ byte ';' :: (ascii " " ++ sameSite.attribute))
      = attributesIn site body := by
  rw [attributesIn, splitOn_sameSite, List.tail_append_of_ne_nil (List.splitOn_ne_nil _ _),
    readAttributes_append, readAttributes_sameSite, Attributes.after_none, attributesIn]

/-- A line with another one appended: the pieces of the other are further attributes. -/
theorem readPieces_joined (body body' : ByteString) (sameSite : SameSite) :
    readPieces site ((body ++ byte ';' ::
        (ascii " " ++ sameSite.attribute ++ ascii ", " ++ body')).splitOn (byte ';'))
      = (readPieces site (body.splitOn (byte ';'))).map (fun r =>
        { r with attributes := r.attributes.after (attributesIn site body') }) := by
  obtain ⟨pair, avs, hbody⟩ := List.exists_cons_of_ne_nil (List.splitOn_ne_nil (byte ';') body)
  obtain ⟨pair', avs', hbody'⟩ := List.exists_cons_of_ne_nil (List.splitOn_ne_nil (byte ';') body')
  have hmid : readAttributes site
      ((ascii " " ++ sameSite.attribute ++ ascii ", " ++ pair') :: avs') = attributesIn site body' := by
    rw [readAttributes_cons, List.append_assoc, attributeOf_sameSite, Attributes.none_after,
      attributesIn, hbody']
    rfl
  rw [List.splitOn_append_cons_self, splitOn_prefix (not_mem_sameSite sameSite), hbody, hbody',
    List.modifyHead_cons, List.cons_append, readPieces, readPieces, readAttributes_append, hmid,
    Option.map_map]
  rfl

/-- A cookie with the attributes of further lines. -/
def withLines (r : ReadCookie) (lines : List ByteString) : ReadCookie :=
  let attributes := lines.foldl (fun a line => a.after (attributesIn site line)) r.attributes
  { r with attributes := attributes }

/-- The name and the value of the first line, with the attributes of all lines. -/
def foldedCookie (first : ByteString) (rest : List ByteString) : Option ReadCookie :=
  (readSetCookie site first).map (fun r => withLines site r rest)

/-- What a user agent reads of the lines of several calls that are joined. -/
theorem read_runCalls {calls : List SetCookieCall} (hprint : ∀ call ∈ calls, call.opts.Printable) :
    ∀ {c : Context} {body : ByteString} {sameSite : SameSite},
      c.setCookieLine = some (body ++ byte ';' :: (ascii " " ++ sameSite.attribute)) →
      ∃ c' line, runCalls c calls = .ok c' ∧ c'.setCookieLine = some line ∧
        readSetCookie site line = (readPieces site (body.splitOn (byte ';'))).map (fun r =>
          withLines site r (calls.map SetCookieCall.line)) := by
  induction calls with
  | nil =>
      intro c body sameSite hline
      refine ⟨c, _, rfl, hline, ?_⟩
      rw [readSetCookie, readPieces_sameSite]
      exact Option.map_id'.symm
  | cons call calls ih =>
      intro c body sameSite hline
      obtain ⟨hcall, hcalls⟩ := List.forall_mem_cons.mp hprint
      obtain ⟨body', hbody'⟩ := line_eq hcall
      obtain ⟨before, hget, hbefore, -⟩ := c.appendSetCookie_get call.line
      have hnext : (c.appendSetCookie call.line).setCookieLine = some
          ((body ++ byte ';' :: (ascii " " ++ sameSite.attribute ++ ascii ", " ++ body')) ++
            byte ';' :: (ascii " " ++ call.opts.sameSite.attribute)) := by
        rw [hget, hbefore _ hline, hbody']
        simp
      obtain ⟨c', line, hrun, hline', hread⟩ := ih hcalls hnext
      refine ⟨c', line, ?_, hline', ?_⟩
      · rw [runCalls, List.foldlM_cons, SetCookieCall.run_ok hcall]
        exact hrun
      · rw [hread, readPieces_joined, Option.map_map, List.map_cons, hbody',
          ← attributesIn_sameSite site body' call.opts.sameSite]
        rfl

end Reading

/-! ## The store -/

section Store

variable (site : Site)

/-- The attributes that the options ask for. -/
def CookieOptions.attributes (opts : CookieOptions) : Attributes where
  path := if opts.path = [] then none else some (pathOf site opts.path)
  domain := domainOf opts.domain
  maxAge := if opts.maxAge = 0 then none else some opts.maxAge
  expires := opts.expires.bind (fun t =>
    civilSeconds t.year t.month t.day t.hour t.minute t.second)
  secure := opts.secure
  httpOnly := opts.httpOnly

/-- What a call is to do to the store: a deletion removes the cookie. -/
def SetCookieCall.meant (call : SetCookieCall) : Effect CookieKey StoredCookie :=
  let e := effect site ⟨call.name, call.value, CookieOptions.attributes site call.opts⟩
  match call with
  | set _ _ _ => e
  | delete _ _ => e.map (fun e => (e.1, none))

/-- The one cookie that is read does what the calls are to do. -/
def Harmless : List SetCookieCall → Prop
  | [] => True
  | call :: calls => Settles
      ((foldedCookie site call.line (calls.map SetCookieCall.line)).bind (effect site))
      ((call :: calls).map (SetCookieCall.meant site))

instance : ∀ calls, Decidable (Harmless site calls)
  | [] => isTrue trivial
  | call :: calls => inferInstanceAs (Decidable (Settles
      ((foldedCookie site call.line (calls.map SetCookieCall.line)).bind (effect site))
      ((call :: calls).map (SetCookieCall.meant site))))

/-- The handler ends, and every store is after its response what the calls make of it. -/
def CookiesDelivered (fresh : Context) (calls : List SetCookieCall) : Prop :=
  ∃ c, runCalls fresh calls = .ok c ∧ ∀ jar, receive site jar c.setCookieLine.toList
    = calls.foldl (fun jar call => apply jar (call.meant site)) jar

theorem printable_of_runCalls {calls : List SetCookieCall} : ∀ {c c' : Context},
    runCalls c calls = .ok c' → ∀ call ∈ calls, call.opts.Printable := by
  induction calls with
  | nil =>
      intro c c' _ call hcall
      cases hcall
  | cons first calls ih =>
      intro c c' h
      rw [runCalls, List.foldlM_cons] at h
      cases hrun : first.run c with
      | error e =>
          rw [hrun] at h
          cases h
      | ok next =>
          rw [hrun] at h
          exact List.forall_mem_cons.mpr ⟨SetCookieCall.printable_of_run hrun, ih h⟩

/-- What a user agent reads of the response. -/
theorem read_response {fresh : Context} (hfresh : fresh.setCookieLine = none)
    {call : SetCookieCall} {calls : List SetCookieCall}
    (hprint : ∀ call' ∈ call :: calls, call'.opts.Printable) :
    ∃ c line, runCalls fresh (call :: calls) = .ok c ∧ c.setCookieLine = some line ∧
      readSetCookie site line = foldedCookie site call.line (calls.map SetCookieCall.line) := by
  obtain ⟨hcall, hcalls⟩ := List.forall_mem_cons.mp hprint
  obtain ⟨body, hbody⟩ := line_eq hcall
  obtain ⟨before, hget, -, hbefore⟩ := fresh.appendSetCookie_get call.line
  rw [hbefore hfresh, List.nil_append, hbody] at hget
  obtain ⟨c, line, hrun, hline, hread⟩ := read_runCalls site hcalls hget
  refine ⟨c, line, ?_, hline, ?_⟩
  · rw [runCalls, List.foldlM_cons, SetCookieCall.run_ok hcall, hbody]
    exact hrun
  · rw [hread, foldedCookie, hbody, readSetCookie, readPieces_sameSite]

variable {site}

/-- Calls that are harmless together are all about one cookie. -/
theorem Harmless.same_cookie {calls : List SetCookieCall} (h : Harmless site calls)
    {call call' : SetCookieCall} (hcall : call ∈ calls) (hcall' : call' ∈ calls)
    {e e' : CookieKey × Option StoredCookie} (he : call.meant site = some e)
    (he' : call'.meant site = some e') : e.1 = e'.1 := by
  have hmem : ∀ c ∈ calls, ∀ e, c.meant site = some e →
      e ∈ (calls.map (SetCookieCall.meant site)).reduceOption := by
    intro c hc e he
    exact List.mem_filterMap.mpr ⟨some e, List.mem_map.mpr ⟨c, hc, he⟩, rfl⟩
  cases calls with
  | nil => cases hcall
  | cons first rest =>
      cases hfolded : (foldedCookie site first.line (rest.map SetCookieCall.line)).bind
          (effect site) with
      | none =>
          have hnone : Settles none ((first :: rest).map (SetCookieCall.meant site)) := hfolded ▸ h
          have hnil : ((first :: rest).map (SetCookieCall.meant site)).reduceOption = [] := hnone
          have hin := hmem call hcall e he
          rw [hnil] at hin
          cases hin
      | some effect =>
          obtain ⟨k, entry⟩ := effect
          have hsome : Settles (some (k, entry)) ((first :: rest).map (SetCookieCall.meant site)) :=
            hfolded ▸ h
          rw [hsome.1 e (hmem call hcall e he), hsome.1 e' (hmem call' hcall' e' he')]

/-- A request to `example.org` some time after the epoch. -/
def exampleSite : Site where
  host := ascii "example.org"
  isName := true
  defaultPath := ascii "/"
  publicSuffix := fun _ => false
  now := 1000
  now_pos := by decide

end Store

/-! ## One call -/

/-- Texts that a user agent reads as they are. -/
def ReadAsWritten (s : ByteString) : Prop := byte ';' ∉ s ∧ trimBlanks s = s

/-- A call whose arguments are read as they are. -/
structure Readable (call : SetCookieCall) : Prop where
  name_ne    : call.name ≠ []
  name_token : ∀ b ∈ call.name, HttpGrammar.isTokenByte b = true
  value      : ReadAsWritten call.value
  path       : ReadAsWritten call.opts.path
  domain     : ReadAsWritten call.opts.domain
  date       : ∀ t, call.opts.expires = some t → ∃ date, formatCookieDate t = some date ∧
    ReadAsWritten date ∧
    readDate date = civilSeconds t.year t.month t.day t.hour t.minute t.second

section One

variable (site : Site) {call : SetCookieCall}

theorem Readable.printable (h : Readable call) : call.opts.Printable := by
  intro t ht
  obtain ⟨date, hdate, -⟩ := h.date t ht
  rw [← formatCookieDate_isSome_iff, hdate]
  rfl

/-- A part with a name and a value, behind a blank. -/
theorem readAttributes_pair (name : ByteString) (hname : byte '=' ∉ ascii " " ++ name)
    (value : ByteString) : readAttributes site ([name ++ byte '=' :: value].map (ascii " " ++ ·))
      = namedAttribute site (trimBlanks (ascii " " ++ name)) (trimBlanks value) := by
  rw [List.map_singleton, ← List.append_assoc, readAttributes_cons, attributeOf_pair site hname]
  exact Attributes.after_none _

theorem readAttributes_flag (name : ByteString) (hname : byte '=' ∉ ascii " " ++ name) :
    readAttributes site ([name].map (ascii " " ++ ·))
      = namedAttribute site (trimBlanks (ascii " " ++ name)) [] := by
  rw [List.map_singleton, readAttributes_cons, attributeOf_flag site hname]
  exact Attributes.after_none _

theorem Readable.pathPart (h : Readable call) : readAttributes site
    ((if call.opts.path.length > 0 then [ascii "Path=" ++ call.opts.path] else []).map
      (ascii " " ++ ·)) = { path := (CookieOptions.attributes site call.opts).path } := by
  rw [CookieOptions.attributes]
  by_cases hpath : call.opts.path = []
  · rw [hpath]
    rfl
  · have hread := readAttributes_pair site (ascii "Path") (by decide) call.opts.path
    rw [h.path.2] at hread
    rw [if_pos (List.length_pos_iff.mpr hpath), if_neg hpath]
    exact hread

theorem Readable.domainPart (h : Readable call) : readAttributes site
    ((if call.opts.domain.length > 0 then [ascii "Domain=" ++ call.opts.domain] else []).map
      (ascii " " ++ ·)) = { domain := (CookieOptions.attributes site call.opts).domain } := by
  rw [CookieOptions.attributes]
  by_cases hdomain : call.opts.domain = []
  · rw [hdomain]
    rfl
  · have hread := readAttributes_pair site (ascii "Domain") (by decide)
      call.opts.domain
    rw [h.domain.2] at hread
    rw [if_pos (List.length_pos_iff.mpr hdomain)]
    exact hread

theorem maxAgePart (opts : CookieOptions) : readAttributes site
    ((if opts.maxAge ≠ 0 then [ascii "Max-Age=" ++ intStr opts.maxAge] else []).map
      (ascii " " ++ ·)) = { maxAge := (CookieOptions.attributes site opts).maxAge } := by
  rw [CookieOptions.attributes]
  by_cases hage : opts.maxAge = 0
  · rw [if_neg (not_not.mpr hage), if_pos hage]
    rfl
  · have hblank : ∀ b ∈ intStr opts.maxAge, isBlank b = false := by
      intro b hb
      by_contra hblank
      rw [Bool.not_eq_false, isBlank, Bool.or_eq_true, beq_iff_eq, beq_iff_eq] at hblank
      rcases hblank with rfl | rfl
      all_goals rcases mem_intStr hb with heq | hdigit
      all_goals first
        | exact absurd heq (by decide)
        | exact absurd hdigit (by decide)
    have hread := readAttributes_pair site (ascii "Max-Age") (by decide)
      (intStr opts.maxAge)
    rw [trimBlanks_eq_self hblank] at hread
    rw [if_pos hage, if_neg hage, ← readDelta_intStr opts.maxAge]
    exact hread

theorem httpOnlyPart (opts : CookieOptions) : readAttributes site
    ((if opts.httpOnly = true then [ascii "HttpOnly"] else []).map (ascii " " ++ ·))
      = { httpOnly := opts.httpOnly } := by
  cases opts.httpOnly with
  | false => rfl
  | true => exact readAttributes_flag site _ (by decide)

theorem securePart (opts : CookieOptions) : readAttributes site
    ((if opts.secure = true then [ascii "Secure"] else []).map (ascii " " ++ ·))
      = { secure := opts.secure } := by
  cases opts.secure with
  | false => rfl
  | true => exact readAttributes_flag site _ (by decide)

theorem Readable.expiresPart (h : Readable call) : ∃ expires,
    expiresAttribute call.opts = some expires ∧ (∀ part ∈ expires, byte ';' ∉ part) ∧
      readAttributes site (expires.map (ascii " " ++ ·))
        = { expires := (CookieOptions.attributes site call.opts).expires } := by
  rw [expiresAttribute, CookieOptions.attributes]
  cases ht : call.opts.expires with
  | none => exact ⟨[], rfl, by rintro _ ⟨⟩, rfl⟩
  | some t =>
      obtain ⟨date, hdate, hwritten, hread⟩ := h.date t ht
      refine ⟨[ascii "Expires=" ++ date], congrArg (Option.map _) hdate, ?_, ?_⟩
      · intro part hpart
        rw [List.mem_singleton.mp hpart]
        intro hmem
        rcases List.mem_append.mp hmem with hmem | hmem
        · exact absurd hmem (by decide)
        · exact hwritten.1 hmem
      · have hattribute := readAttributes_pair site (ascii "Expires") (by decide) date
        rw [hwritten.2] at hattribute
        refine hattribute.trans ?_
        rw [Option.bind_some, ← hread]
        rfl

/-- One call is read as what it is given. -/
theorem Readable.read (h : Readable call) : readSetCookie site call.line
    = some ⟨call.name, call.value, CookieOptions.attributes site call.opts⟩ := by
  obtain ⟨expires, hexpires, hcut, hdate⟩ := h.expiresPart site
  have hname : ∀ b : UInt8, HttpGrammar.isTokenByte b = false → b ∉ call.name := by
    intro b hb hmem
    rw [h.name_token b hmem] at hb
    cases hb
  have hpair : readPair (call.name ++ ascii "=" ++ call.value) = some (call.name, call.value) := by
    have hblank : ∀ b ∈ call.name, isBlank b = false := by
      intro b hb
      by_contra hblank
      rw [Bool.not_eq_false, isBlank, Bool.or_eq_true, beq_iff_eq, beq_iff_eq] at hblank
      rcases hblank with rfl | rfl
      all_goals exact hname _ (by decide) hb
    have hcut : call.name ++ ascii "=" ++ call.value = call.name ++ byte '=' :: call.value :=
      List.append_assoc _ _ _
    have hdrop : (call.name ++ byte '=' :: call.value).drop (call.name.length + 1) = call.value := by
      rw [← List.drop_drop, List.drop_left]
      rfl
    rw [hcut, readPair, idxOf?_append (hname _ (by decide))]
    dsimp only
    rw [List.take_left, trimBlanks_eq_self hblank, if_neg h.name_ne, hdrop, h.value.2]
  have hparts : ∀ name s : ByteString, byte ';' ∉ name → byte ';' ∉ s → byte ';' ∉ name ++ s := by
    intro name s hn hs hmem
    rcases List.mem_append.mp hmem with hmem | hmem
    · exact hn hmem
    · exact hs hmem
  have hage : byte ';' ∉ intStr call.opts.maxAge := by
    intro hmem
    rcases mem_intStr hmem with heq | hdigit
    · exact absurd heq (by decide)
    · exact absurd hdigit (by decide)
  rw [SetCookieCall.line, buildCookieString, cookieAttributes, hexpires, Option.map_some,
    Option.map_some, Option.getD_some, readSetCookie, splitOn_joined, readPieces, hpair]
  · have hsame : readAttributes site ([call.opts.sameSite.attribute].map (ascii " " ++ ·)) = {} :=
      readAttributes_sameSite site _
    simp only [List.map_append, readAttributes_append, h.pathPart, h.domainPart, maxAgePart, hdate,
      httpOnlyPart, securePart, hsame]
    simp [Attributes.after, CookieOptions.attributes]
  · intro part hpart
    simp only [List.mem_cons, List.mem_append, List.mem_ite_nil_right,
      List.not_mem_nil, or_false] at hpart
    rcases hpart with rfl | (((((⟨-, rfl⟩ | ⟨-, rfl⟩) | ⟨-, rfl⟩) | hpart) | ⟨-, rfl⟩) | ⟨-, rfl⟩) | rfl
    · exact hparts _ _ (hparts _ _ (hname _ (by decide)) (by decide)) h.value.1
    · exact hparts _ _ (by decide) h.path.1
    · exact hparts _ _ (by decide) h.domain.1
    · exact hparts _ _ (by decide) hage
    · exact hcut part hpart
    · decide
    · decide
    · cases call.opts.sameSite <;> decide

theorem epoch_seconds : civilSeconds 1970 1 1 0 0 0 = some 0 := by
  decide

/-- A call alone on its response is delivered. -/
theorem Readable.harmless (h : Readable call) : Harmless site [call] := by
  have hread : foldedCookie site call.line [] =
      some ⟨call.name, call.value, CookieOptions.attributes site call.opts⟩ := by
    rw [foldedCookie, h.read site]
    rfl
  have heffect : (foldedCookie site call.line []).bind (effect site) = call.meant site := by
    rw [hread, Option.bind_some]
    cases call with
    | set => rfl
    | delete name options =>
        have hlapsed : lapsed site (CookieOptions.attributes site
            (SetCookieCall.delete name options).opts) = true := by
          have hepoch : (CookieOptions.attributes site (SetCookieCall.delete name options).opts).expires
              = some 0 := epoch_seconds
          have hage : (CookieOptions.attributes site (SetCookieCall.delete name options).opts).maxAge
              = none := rfl
          rw [lapsed, hage, hepoch]
          exact decide_eq_true site.now_pos
        show effect site _ = (effect site _).map (fun e => (e.1, none))
        rw [effect, hlapsed, Option.map_map]
        rfl
  show Settles ((foldedCookie site call.line []).bind (effect site)) [call.meant site]
  rw [heffect]
  cases call.meant site with
  | none => rfl
  | some e =>
      obtain ⟨k, entry⟩ := e
      refine ⟨?_, rfl⟩
      intro e he
      rw [List.mem_singleton.mp he]

end One

end VHono
