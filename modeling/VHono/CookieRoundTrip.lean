import VHono.CookieSignatures

/-! # Cookies set and sent back

    A client keeps of every `Set-Cookie` line what stands before the first `;`
    and sends the parts back in one header.  A value comes back if nothing of
    it is cut off, trimmed or unquoted on the way, and if its response set no
    cookie before it. -/

namespace VHono

open ByteString

/-- A token. -/
abbrev CookieName := { n : ByteString // n ≠ [] ∧ ∀ b ∈ n, HttpGrammar.isTokenByte b = true }

/-- A call of `set_cookie` or `set_signed_cookie`. -/
inductive CookieCall
  | plain (name : CookieName) (value : ByteString) (options : List CookieOptions)
  | signed (name : CookieName) (value secret : ByteString) (options : List CookieOptions)

namespace CookieCall

def name : CookieCall → CookieName
  | plain name _ _ => name
  | signed name _ _ _ => name

def value : CookieCall → ByteString
  | plain _ value _ => value
  | signed _ value _ _ => value

def options : CookieCall → List CookieOptions
  | plain _ _ options => options
  | signed _ _ _ options => options

section Calls

variable (sha256 : ByteString → Digest)

/-- What is written after `name=`. -/
def written : CookieCall → ByteString
  | plain _ value _ => value
  | signed _ value secret _ => signedValue sha256 secret value

def run (c : Context) : CookieCall → Except CookieFailure Context
  | plain name value options => setCookie c name.val value options
  | signed name value secret options => setSignedCookie sha256 c name.val value secret options

def read (c : Context) : CookieCall → Option ByteString
  | plain name _ _ => getCookie c name.val
  | signed name _ secret _ => (getSignedCookie sha256 c name.val secret).toOption

end Calls

end CookieCall

/-! ## Texts -/

/-- What stands before the first `;`. -/
def namePart (line : ByteString) : ByteString := line.takeWhile (fun b => b ≠ byte ';')

theorem not_mem_namePart (line : ByteString) : byte ';' ∉ namePart line := by
  intro h
  exact absurd (List.mem_takeWhile_imp h) (by decide)

theorem namePart_cut (s rest : ByteString) : namePart (s ++ byte ';' :: rest) = namePart s := by
  induction s with
  | nil => rfl
  | cons b s ih =>
      by_cases hb : b = byte ';'
      · rw [hb]
        rfl
      · rw [List.cons_append, namePart, List.takeWhile_cons_of_pos (by simpa using hb), namePart,
          List.takeWhile_cons_of_pos (by simpa using hb)]
        exact congrArg (b :: ·) ih

theorem namePart_append {s : ByteString} (hs : byte ';' ∉ s) (t : ByteString) :
    namePart (s ++ t) = s ++ namePart t := by
  refine takeWhile_append_all (fun b hb => decide_eq_true ?_)
  rintro rfl
  exact hs hb

theorem namePart_eq_self_iff {s : ByteString} : namePart s = s ↔ byte ';' ∉ s := by
  constructor
  · intro h
    rw [← h]
    exact not_mem_namePart s
  · intro h
    have happend := namePart_append h []
    rw [List.append_nil] at happend
    rw [happend]
    exact List.append_nil s

theorem not_mem_token {name : CookieName} {b : UInt8} (h : HttpGrammar.isTokenByte b = false) :
    b ∉ name.val := by
  intro hmem
  rw [name.property.2 b hmem] at h
  cases h

/-- A piece with a token for its name. -/
theorem parseCookiePair_token {before : ByteString} (hbefore : ∀ b ∈ before, isSpace b = true)
    (name : CookieName) (s : ByteString) :
    parseCookiePair (before ++ (name.val ++ byte '=' :: s))
      = some (name.val, unquote (trimSpace s)) := by
  obtain ⟨left, right, hs, hleft, hright, hhead, hlast⟩ := exists_padded s
  have hname : ∀ b ∈ name.val, isSpace b = false :=
    fun b hb => HttpGrammar.isSpace_token (name.property.2 b hb)
  have hfirst : ∀ t b, (name.val ++ byte '=' :: t).head? = some b → isSpace b = false := by
    intro t b hb
    rw [List.head?_append_of_ne_nil _ name.property.1] at hb
    exact hname b (List.mem_of_mem_head? hb)
  -- what is trimmed off is blank at the end of the value
  obtain ⟨mid, htrim, hmid⟩ : ∃ mid, trimSpace (before ++ (name.val ++ byte '=' :: s))
      = name.val ++ byte '=' :: mid ∧ trimSpace mid = trimSpace s := by
    by_cases hempty : trimSpace s = []
    · refine ⟨[], ?_, by rw [hempty]; rfl⟩
      rw [hempty, List.nil_append] at hs
      have hcut : before ++ (name.val ++ byte '=' :: s)
          = before ++ ((name.val ++ [byte '=']) ++ (left ++ right)) := by
        rw [← hs]
        simp
      rw [hcut]
      refine trimSpace_padded hbefore ?_ (hfirst []) ?_
      · intro b hb
        rcases List.mem_append.mp hb with hb | hb
        · exact hleft b hb
        · exact hright b hb
      · intro b hb
        rw [List.getLast?_concat] at hb
        cases hb
        decide
    · refine ⟨left ++ trimSpace s, ?_, ?_⟩
      · have hcut : before ++ (name.val ++ byte '=' :: s)
            = before ++ ((name.val ++ byte '=' :: (left ++ trimSpace s)) ++ right) := by
          conv_lhs => rw [hs]
          simp
        rw [hcut]
        refine trimSpace_padded hbefore hright (hfirst _) (fun b hb => hlast b ?_)
        rw [← hb, ← List.cons_append, ← List.append_assoc]
        exact (List.getLast?_append_of_ne_nil _ hempty).symm
      · have hpad := @trimSpace_padded left [] (trimSpace s) hleft (fun b hb => by cases hb)
          hhead hlast
        rwa [List.append_nil] at hpad
  have hnameTrim : trimSpace name.val = name.val := by
    have hpad := @trimSpace_padded [] [] name.val
      (fun b hb => by cases hb) (fun b hb => by cases hb)
      (fun b hb => hname b (List.mem_of_mem_head? hb))
      (fun b hb => hname b (List.mem_of_mem_getLast? hb))
    rwa [List.append_nil, List.nil_append] at hpad
  have hlength : 0 < name.val.length := List.length_pos_iff.mpr name.property.1
  have hdrop : (name.val ++ byte '=' :: mid).drop (name.val.length + 1) = mid := by
    rw [← List.drop_drop, List.drop_left]
    rfl
  rw [parseCookiePair, htrim]
  dsimp only
  rw [if_neg (by simp), idxOf?_append (not_mem_token (by decide))]
  dsimp only
  rw [if_neg (by omega), List.take_left, hnameTrim, hdrop, ← hmid]
  split
  · rfl
  · rename_i hend
    have hnil : mid = [] := by
      rw [← List.length_eq_zero_iff]
      rw [List.length_append, List.length_cons] at hend
      omega
    rw [hnil]
    rfl

/-! ## Lines -/

/-- A cookie string is the name, the value and attributes. -/
theorem buildCookieString_some {name value s : ByteString} {opts : CookieOptions}
    (h : buildCookieString name value opts = some s) :
    ∃ rest, s = name ++ byte '=' :: (value ++ byte ';' :: rest) := by
  obtain ⟨attributes, hattributes, hs⟩ := Option.map_eq_some_iff.mp h
  obtain ⟨_, -, hlist⟩ := Option.map_eq_some_iff.mp hattributes
  cases attributes with
  | nil =>
      have hlength := congrArg List.length hlist
      rw [List.length_append, List.length_singleton] at hlength
      cases hlength
  | cons first rest =>
      refine ⟨ascii " " ++ (ascii "; ").intercalate (first :: rest), ?_⟩
      rw [← hs, List.intercalate_cons_cons]
      simp [ascii, byte]

theorem setCookie_ok {c c' : Context} {name value : ByteString} {options : List CookieOptions}
    (h : setCookie c name value options = .ok c') :
    ∃ rest, c' = c.appendSetCookie (name ++ byte '=' :: (value ++ byte ';' :: rest)) := by
  rw [setCookie] at h
  cases hbuild : buildCookieString name value (CookieOptions.first options) with
  | none =>
      rw [hbuild] at h
      cases h
  | some s =>
      rw [hbuild] at h
      cases h
      obtain ⟨rest, rfl⟩ := buildCookieString_some hbuild
      exact ⟨rest, rfl⟩

section Responses

variable {sha256 : ByteString → Digest}

theorem CookieCall.run_ok {c c' : Context} {call : CookieCall} (h : call.run sha256 c = .ok c') :
    ∃ rest, c' = c.appendSetCookie
      (call.name.val ++ byte '=' :: (call.written sha256 ++ byte ';' :: rest)) := by
  cases call with
  | plain name value options => exact setCookie_ok h
  | signed name value secret options =>
      rw [CookieCall.run] at h
      by_cases hsecret : secret = []
      · rw [setSignedCookie, if_pos (List.length_eq_zero_iff.mpr hsecret)] at h
        cases h
      · rw [setSignedCookie_eq c ⟨name.val, value, options⟩ hsecret] at h
        exact setCookie_ok h

variable (sha256)

/-- The calls of one response. -/
def respond (c : Context) (calls : List CookieCall) : Except CookieFailure Context :=
  calls.foldlM (fun c call => call.run sha256 c) c

variable {sha256}

def Context.setCookieLine (c : Context) : Option ByteString :=
  c.headers.get? (ascii "Set-Cookie")

theorem Context.appendSetCookie_get (c : Context) (s : ByteString) :
    ∃ before, (c.appendSetCookie s).setCookieLine = some (before ++ s) ∧
      (∀ line, c.setCookieLine = some line → before = line ++ ascii ", ") ∧
      (c.setCookieLine = none → before = []) := by
  rw [Context.appendSetCookie, Context.setCookieLine]
  dsimp only
  rw [InsertionMap.get?_insert_self, Context.setCookieLine]
  cases c.headers.get? (ascii "Set-Cookie") with
  | none => exact ⟨[], rfl, by rintro _ ⟨⟩, fun _ => rfl⟩
  | some existing =>
      refine ⟨existing ++ ascii ", ", rfl, ?_, by rintro ⟨⟩⟩
      rintro _ ⟨⟩
      rfl

/-- What is in the line stays at its beginning. -/
theorem respond_extends {calls : List CookieCall} : ∀ {c c' : Context} {line : ByteString},
    c.setCookieLine = some line → respond sha256 c calls = .ok c' →
      ∃ rest, c'.setCookieLine = some (line ++ rest) := by
  induction calls with
  | nil =>
      rintro c c' line hline h
      cases h
      exact ⟨[], by rw [List.append_nil]; exact hline⟩
  | cons call calls ih =>
      intro c c' line hline h
      rw [respond, List.foldlM_cons] at h
      cases hrun : call.run sha256 c with
      | error e =>
          rw [hrun] at h
          cases h
      | ok next =>
          rw [hrun] at h
          obtain ⟨rest, rfl⟩ := CookieCall.run_ok hrun
          obtain ⟨before, hget, hbefore, -⟩ := c.appendSetCookie_get
            (call.name.val ++ byte '=' :: (call.written sha256 ++ byte ';' :: rest))
          obtain ⟨rest', hrest'⟩ := ih hget h
          rw [hbefore line hline, List.append_assoc, List.append_assoc] at hrest'
          exact ⟨_, hrest'⟩

/-- The part of a line that counts is that of the first call. -/
theorem respond_line {fresh c : Context} {call : CookieCall} {calls : List CookieCall}
    (hfresh : fresh.setCookieLine = none)
    (h : respond sha256 fresh (call :: calls) = .ok c) :
    ∃ line, c.setCookieLine = some line ∧
      namePart line = call.name.val ++ byte '=' :: namePart (call.written sha256) := by
  rw [respond, List.foldlM_cons] at h
  cases hrun : call.run sha256 fresh with
  | error e =>
      rw [hrun] at h
      cases h
  | ok next =>
      rw [hrun] at h
      obtain ⟨rest, rfl⟩ := CookieCall.run_ok hrun
      obtain ⟨before, hget, -, hbefore⟩ := fresh.appendSetCookie_get
        (call.name.val ++ byte '=' :: (call.written sha256 ++ byte ';' :: rest))
      rw [hbefore hfresh, List.nil_append] at hget
      obtain ⟨rest', hline⟩ := respond_extends hget h
      refine ⟨_, hline, ?_⟩
      have hsplit : call.name.val ++ byte '=' :: (call.written sha256 ++ byte ';' :: rest) ++ rest'
          = (call.name.val ++ [byte '=']) ++ (call.written sha256 ++ byte ';' :: (rest ++ rest')) := by
        simp
      rw [hsplit, namePart_append, namePart_cut, List.append_assoc]
      · rfl
      · rw [List.mem_append]
        rintro (hmem | hmem)
        · exact not_mem_token (by decide) hmem
        · exact absurd (List.mem_singleton.mp hmem) (by decide)

/-! ## The header that is sent back -/

def setCookieLines (contexts : List Context) : List ByteString :=
  contexts.filterMap Context.setCookieLine

/-- The header of a client that keeps every line. -/
def cookieHeader (contexts : List Context) : ByteString :=
  (ascii "; ").intercalate ((setCookieLines contexts).map namePart)

/-- A later request with this header; an empty one is not sent. -/
def Context.withCookies (c : Context) (header : ByteString) : Context :=
  { c with req := { c.req with
    header := if header = [] then [] else [(ascii "Cookie", header)] } }

variable (sha256)

/-- What a call is read back as. -/
def CookieCall.text (call : CookieCall) : ByteString :=
  unquote (trimSpace (namePart (call.written sha256)))

/-- The call of a response that its line is read for. -/
def firstCalls (responses : List (List CookieCall)) : List CookieCall :=
  responses.filterMap List.head?

variable {sha256}

/-- A header of parts, as a split at `;` finds them. -/
theorem splitOn_joined {first : ByteString} {rest : List ByteString}
    (h : ∀ part ∈ first :: rest, byte ';' ∉ part) :
    ((ascii "; ").intercalate (first :: rest)).splitOn (byte ';')
      = first :: rest.map (ascii " " ++ ·) := by
  have hjoin : (ascii "; ").intercalate (first :: rest)
      = [byte ';'].intercalate (first :: rest.map (ascii " " ++ ·)) := by
    clear h
    induction rest generalizing first with
    | nil => rw [List.map_nil, List.intercalate_singleton, List.intercalate_singleton]
    | cons second rest ih =>
        rw [List.map_cons, List.intercalate_cons_cons, List.intercalate_cons_cons, ih]
        cases rest with
        | nil => simp [ascii, byte]
        | cons third rest =>
            rw [List.map_cons, List.intercalate_cons_cons, List.intercalate_cons_cons]
            simp [ascii, byte]
  rw [hjoin]
  refine List.splitOn_intercalate _ ?_ (List.cons_ne_nil _ _)
  intro part hpart
  rcases List.mem_cons.mp hpart with rfl | hpart
  · exact h part (List.mem_cons_self ..)
  · obtain ⟨part', hpart', rfl⟩ := List.mem_map.mp hpart
    intro hmem
    rcases List.mem_append.mp hmem with hmem | hmem
    · exact absurd hmem (by decide)
    · exact h part' (List.mem_cons_of_mem _ hpart') hmem

variable (sha256)

/-- The part of a line that a client keeps. -/
def CookieCall.part (call : CookieCall) : ByteString :=
  call.name.val ++ byte '=' :: namePart (call.written sha256)

variable {sha256}

theorem CookieCall.not_mem_part (call : CookieCall) : byte ';' ∉ call.part sha256 := by
  intro h
  rcases List.mem_append.mp h with hname | htext
  · exact not_mem_token (by decide) hname
  · rcases List.mem_cons.mp htext with heq | htext
    · exact absurd heq (by decide)
    · exact not_mem_namePart _ htext

theorem addCookiePair_part {before : ByteString} (hbefore : ∀ b ∈ before, isSpace b = true)
    (cookies : InsertionMap ByteString ByteString) (call : CookieCall) :
    addCookiePair cookies (before ++ call.part sha256)
      = cookies.insert call.name.val (call.text sha256) := by
  rw [addCookiePair, CookieCall.part, parseCookiePair_token hbefore]
  rfl

/-- The cookies of the header are those of the calls. -/
theorem parse_parts {calls : List CookieCall} (hne : calls ≠ [])
    (hnames : (calls.map (fun call => call.name.val)).Nodup) :
    (parseCookieHeader ((ascii "; ").intercalate (calls.map (CookieCall.part sha256)))).entries
      = calls.map (fun call => (call.name.val, call.text sha256)) := by
  have hpieces : ∀ (calls : List CookieCall) (cookies : InsertionMap ByteString ByteString),
      (calls.map (fun call => ascii " " ++ call.part sha256)).foldl addCookiePair cookies
        = calls.foldl (fun cookies call =>
          cookies.insert call.name.val (call.text sha256)) cookies := by
    have hblank : ∀ b ∈ ascii " ", isSpace b = true := by
      intro b hb
      rw [List.mem_singleton.mp hb]
      rfl
    intro calls
    induction calls with
    | nil => intro cookies; rfl
    | cons call calls ih =>
        intro cookies
        rw [List.map_cons, List.foldl_cons, List.foldl_cons, addCookiePair_part hblank, ih]
  obtain ⟨call, rest, rfl⟩ := List.exists_cons_of_ne_nil hne
  have hfirst := @addCookiePair_part sha256 []
    (fun b hb => by cases hb) .empty call
  rw [List.nil_append] at hfirst
  rw [parseCookieHeader, List.map_cons, splitOn_joined, List.foldl_cons, hfirst, List.map_map]
  · have hfold := hpieces rest (InsertionMap.empty.insert call.name.val (call.text sha256))
    have hentries := InsertionMap.entries_foldl_insert (fun call : CookieCall => call.name.val)
      (fun call => call.text sha256) (call :: rest) .empty hnames
    rw [List.foldl_cons] at hentries
    rw [← List.nil_append (List.map _ (call :: rest))]
    refine Eq.trans ?_ hentries
    exact congrArg InsertionMap.entries hfold
  · intro part hpart
    rw [← List.map_cons] at hpart
    obtain ⟨call', -, rfl⟩ := List.mem_map.mp hpart
    exact call'.not_mem_part

theorem lines_eq {fresh : Context} (hfresh : fresh.setCookieLine = none)
    {responses : List (List CookieCall)} {contexts : List Context}
    (h : List.Forall₂ (fun calls c => respond sha256 fresh calls = .ok c) responses contexts) :
    (setCookieLines contexts).map namePart = (firstCalls responses).map (CookieCall.part sha256) := by
  induction h with
  | nil => rfl
  | @cons calls c responses contexts hrespond _ ih =>
      cases calls with
      | nil =>
          cases hrespond
          rw [setCookieLines, List.filterMap_cons_none (f := Context.setCookieLine) hfresh]
          exact ih
      | cons call calls =>
          obtain ⟨line, hline, hpart⟩ := respond_line hfresh hrespond
          rw [setCookieLines, List.filterMap_cons_some (f := Context.setCookieLine) hline,
            List.map_cons, hpart]
          exact congrArg (_ :: ·) ih

/-- A later request finds the text of each first call and no other cookie. -/
theorem getCookie_sentBack {fresh : Context} (hfresh : fresh.setCookieLine = none)
    {responses : List (List CookieCall)} {contexts : List Context}
    (h : List.Forall₂ (fun calls c => respond sha256 fresh calls = .ok c) responses contexts)
    (hnames : ((firstCalls responses).map (fun call => call.name.val)).Nodup)
    (later : Context) (name text : ByteString) :
    getCookie (later.withCookies (cookieHeader contexts)) name = some text ↔
      ∃ call ∈ firstCalls responses, call.name.val = name ∧ call.text sha256 = text := by
  have hheader : cookieHeader contexts
      = (ascii "; ").intercalate ((firstCalls responses).map (CookieCall.part sha256)) := by
    rw [cookieHeader, lines_eq hfresh h]
  by_cases hempty : firstCalls responses = []
  · rw [hempty] at hheader ⊢
    have hnone : getCookie (later.withCookies (cookieHeader contexts)) name = none := by
      rw [hheader]
      rfl
    rw [hnone]
    constructor
    · rintro ⟨⟩
    · rintro ⟨_, hmem, -⟩
      cases hmem
  · have hne : cookieHeader contexts ≠ [] := by
      obtain ⟨call, rest, hcalls⟩ := List.exists_cons_of_ne_nil hempty
      have hpart := infix_intercalate (ascii "; ")
        (List.mem_map_of_mem (f := CookieCall.part sha256) (hcalls ▸ List.mem_cons_self (a := call)))
      rw [← hheader] at hpart
      intro hnil
      rw [hnil] at hpart
      have hlength := hpart.length_le
      rw [CookieCall.part, List.length_append, List.length_cons] at hlength
      exact absurd hlength (by simp)
    have hget : getCookie (later.withCookies (cookieHeader contexts)) name
        = (parseCookieHeader (cookieHeader contexts)).get? name := by
      have hfind : (later.withCookies (cookieHeader contexts)).req.header.getCustom (ascii "Cookie")
          = some (cookieHeader contexts) := by
        rw [Context.withCookies]
        dsimp only
        rw [if_neg hne]
        rfl
      rw [getCookie, hfind]
      dsimp only
      rw [if_neg (fun hlength => hne (List.length_eq_zero_iff.mp hlength))]
    rw [hget, InsertionMap.get?_eq_some_iff, hheader, parse_parts hempty hnames, List.mem_map]
    simp only [Prod.mk.injEq]

end Responses

/-! ## What survives -/

theorem unquote_eq_self_iff {s : ByteString} : unquote s = s ↔ quoted s = false := by
  rw [unquote]
  cases hquoted : quoted s with
  | false => simp
  | true =>
      have htwo : s.length ≥ 2 := by
        rw [quoted, Bool.and_eq_true, Bool.and_eq_true] at hquoted
        exact of_decide_eq_true hquoted.1.1
      rw [if_pos rfl]
      constructor
      · intro h
        have hlength := congrArg List.length h
        rw [slice, List.length_drop, List.length_take] at hlength
        omega
      · rintro ⟨⟩

theorem getLast?_of_quoted {s : ByteString} (h : quoted s = true) : s.getLast? = some (byte '"') := by
  rw [quoted, Bool.and_eq_true, Bool.and_eq_true] at h
  have htwo : s.length ≥ 2 := of_decide_eq_true h.1.1
  have hlast := beq_iff_eq.mp h.2
  rw [byteAt, List.getD_eq_getElem?_getD] at hlast
  rw [List.getLast?_eq_getElem?]
  cases hget : s[s.length - 1]? with
  | none =>
      rw [List.getElem?_eq_none_iff] at hget
      omega
  | some b =>
      rw [hget] at hlast
      exact congrArg some hlast

/-- A text that is read as it is written. -/
structure Unaltered (s : ByteString) : Prop where
  uncut     : byte ';' ∉ s
  untrimmed : trimSpace s = s
  unquoted  : quoted s = false

theorem read_back_iff {s : ByteString} : unquote (trimSpace (namePart s)) = s ↔ Unaltered s := by
  constructor
  · intro h
    have hprefix : namePart s <+: s := List.takeWhile_prefix _
    have hcut : namePart s = s := by
      refine hprefix.eq_of_length (Nat.le_antisymm hprefix.length_le ?_)
      conv_lhs => rw [← h]
      exact ((unquote_part _).trans (trimSpace_part _)).length_le
    rw [hcut] at h
    have htrim : trimSpace s = s := by
      refine (trimSpace_part s).eq_of_length (Nat.le_antisymm (trimSpace_part s).length_le ?_)
      conv_lhs => rw [← h]
      exact (unquote_part _).length_le
    rw [htrim] at h
    exact ⟨namePart_eq_self_iff.mp hcut, htrim, unquote_eq_self_iff.mp h⟩
  · rintro ⟨huncut, huntrimmed, hunquoted⟩
    rw [namePart_eq_self_iff.mpr huncut, huntrimmed, unquote_eq_self_iff.mpr hunquoted]

section Signed

variable {sha256 : ByteString → Digest}

/-- Behind a value stands its signature, which is neither blank nor a quote. -/
theorem unaltered_signedValue_iff {value secret : ByteString} (hvalue : value ≠ []) :
    Unaltered (signedValue sha256 secret value) ↔
      byte ';' ∉ value ∧ ∀ b, value.head? = some b → isSpace b = false := by
  have hne : generateHmacSignature sha256 value secret ≠ [] := by
    rw [← List.length_pos_iff, length_signature]
    omega
  have hlast : ∀ b, (signedValue sha256 secret value).getLast? = some b →
      isSignatureByte b = true := by
    intro b hb
    rw [signedValue, List.getLast?_append_of_ne_nil _ (List.cons_ne_nil _ _),
      List.getLast?_cons_of_ne_nil hne] at hb
    exact isSignatureByte_signature (List.mem_of_mem_getLast? hb)
  have hhead : (signedValue sha256 secret value).head? = value.head? :=
    List.head?_append_of_ne_nil _ hvalue
  constructor
  · rintro ⟨huncut, huntrimmed, -⟩
    rw [trimSpace_eq_self_iff, hhead] at huntrimmed
    exact ⟨fun hmem => huncut (List.mem_append_left _ hmem), huntrimmed.1⟩
  · rintro ⟨huncut, hfirst⟩
    refine ⟨?_, ?_, ?_⟩
    · intro hmem
      rcases List.mem_append.mp hmem with hmem | hmem
      · exact huncut hmem
      · rcases List.mem_cons.mp hmem with heq | hmem
        · exact absurd heq (by decide)
        · exact not_mem_signature value secret (by decide) hmem
    · rw [trimSpace_eq_self_iff, hhead]
      refine ⟨hfirst, fun b hb => ?_⟩
      have hletter := hlast b hb
      by_contra hspace
      simp only [isSpace, Bool.not_eq_false, Bool.or_eq_true, beq_iff_eq] at hspace
      rcases hspace with ((((rfl | rfl) | rfl) | rfl) | rfl) | rfl
      all_goals revert hletter; decide
    · by_contra hquoted
      have hletter := hlast _ (getLast?_of_quoted (Bool.not_eq_false _ ▸ hquoted))
      revert hletter
      decide

/-! ## Which cookies come back -/

/-- The day and the month of the expiry have names. -/
def CookieOptions.Printable (opts : CookieOptions) : Prop :=
  ∀ t, opts.expires = some t → (1 ≤ t.month ∧ t.month ≤ 12) ∧ t.dayOfWeek ≠ some 7

/-- A day of the week is a number from 1 to 7. -/
theorem Time.dayOfWeek_range {t : Time} {d : Nat} (h : t.dayOfWeek = some d) : 1 ≤ d ∧ d ≤ 7 := by
  rw [Time.dayOfWeek] at h
  split at h
  · cases h
  · obtain ⟨offset, -, rfl⟩ := Option.map_eq_some_iff.mp h
    omega

theorem isSome_getElem?_iff {α : Type*} (l : List α) (i : Nat) : l[i]?.isSome = true ↔ i < l.length := by
  rw [Option.isSome_iff_exists]
  exact ⟨fun ⟨_, h⟩ => (List.getElem?_eq_some_iff.mp h).1,
    fun h => ⟨_, List.getElem?_eq_getElem h⟩⟩

theorem Time.dayOfWeek_isSome_iff (t : Time) :
    t.dayOfWeek.isSome = true ↔ 1 ≤ t.month ∧ t.month ≤ 12 := by
  rw [Time.dayOfWeek]
  by_cases hzero : t.month = 0
  · simp [hzero]
  · simp only [if_neg hzero, Option.isSome_map, isSome_getElem?_iff]
    show t.month - 1 < 12 ↔ _
    omega

theorem formatCookieDate_isSome_iff (t : Time) : (formatCookieDate t).isSome = true ↔
    (1 ≤ t.month ∧ t.month ≤ 12) ∧ t.dayOfWeek ≠ some 7 := by
  have hboth : (formatCookieDate t).isSome = true ↔
      t.dayName.isSome = true ∧ t.monthName.isSome = true := by
    rw [formatCookieDate]
    cases t.dayName <;> cases t.monthName <;> simp
  have hmonth : t.monthName.isSome = true ↔ 1 ≤ t.month ∧ t.month ≤ 12 := by
    rw [Time.monthName]
    by_cases hzero : t.month = 0
    · simp [hzero]
    · rw [if_neg hzero, isSome_getElem?_iff]
      show t.month - 1 < 12 ↔ _
      omega
  rw [hboth, hmonth, and_comm, Time.dayName]
  refine and_congr_right (fun hrange => ?_)
  cases hday : t.dayOfWeek with
  | none =>
      have hsome := t.dayOfWeek_isSome_iff.mpr hrange
      rw [hday] at hsome
      cases hsome
  | some d =>
      have hseven := Time.dayOfWeek_range hday
      rw [Option.bind_some, isSome_getElem?_iff]
      show d < 7 ↔ _
      constructor
      · rintro hlt ⟨⟩
        omega
      · intro hne
        have hd : d ≠ 7 := fun h => hne (congrArg some h)
        omega

theorem expiresAttribute_isSome_iff (opts : CookieOptions) :
    (expiresAttribute opts).isSome = true ↔ opts.Printable := by
  rw [expiresAttribute, CookieOptions.Printable]
  cases opts.expires with
  | none =>
      constructor
      · rintro - _ ⟨⟩
      · exact fun _ => rfl
  | some t =>
      dsimp only
      rw [Option.isSome_map, formatCookieDate_isSome_iff]
      constructor
      · rintro h _ ⟨⟩
        exact h
      · exact fun h => h t rfl

theorem setCookie_ok_iff (c : Context) (name value : ByteString) (options : List CookieOptions) :
    (∃ c', setCookie c name value options = .ok c') ↔ (CookieOptions.first options).Printable := by
  rw [← expiresAttribute_isSome_iff, setCookie, buildCookieString, cookieAttributes]
  cases expiresAttribute (CookieOptions.first options) with
  | none =>
      constructor
      · rintro ⟨_, ⟨⟩⟩
      · rintro ⟨⟩
  | some expires => exact ⟨fun _ => rfl, fun _ => ⟨_, rfl⟩⟩

namespace CookieCall

/-- The call does not fail. -/
def Writable : CookieCall → Prop
  | plain _ _ options => (CookieOptions.first options).Printable
  | signed _ _ secret options => secret ≠ [] ∧ (CookieOptions.first options).Printable

/-- What the call writes is read as its value. -/
def Survives : CookieCall → Prop
  | plain _ value options => (CookieOptions.first options).Printable ∧ Unaltered value
  | signed _ value secret options =>
      (secret ≠ [] ∧ (CookieOptions.first options).Printable) ∧ value ≠ [] ∧ byte ';' ∉ value ∧
        ∀ b, value.head? = some b → isSpace b = false

theorem Survives.writable {call : CookieCall} (h : call.Survives) : call.Writable := by
  cases call with
  | plain => exact h.1
  | signed => exact h.1

theorem run_ok_iff (c : Context) (call : CookieCall) :
    (∃ c', call.run sha256 c = .ok c') ↔ call.Writable := by
  cases call with
  | plain name value options => exact setCookie_ok_iff c name.val value options
  | signed name value secret options =>
      rw [run, Writable]
      by_cases hsecret : secret = []
      · rw [setSignedCookie, if_pos (List.length_eq_zero_iff.mpr hsecret)]
        constructor
        · rintro ⟨_, ⟨⟩⟩
        · exact fun h => absurd hsecret h.1
      · rw [setSignedCookie_eq c ⟨name.val, value, options⟩ hsecret, setCookie_ok_iff,
          and_iff_right hsecret]

/-- Where its text is found, a call is read as its value if it survives. -/
theorem read_iff {c : Context} {call : CookieCall} (hwritable : call.Writable)
    (hget : getCookie c call.name.val = some (call.text sha256)) :
    call.read sha256 c = some call.value ↔ call.Survives := by
  cases call with
  | plain name value options =>
      have hprintable : (CookieOptions.first options).Printable := hwritable
      have hvalue : getCookie c name.val = some value ↔ Unaltered value := by
        rw [← read_back_iff]
        exact (congrArg (· = some value) hget).to_iff.trans Option.some_inj
      rw [Survives, and_iff_right hprintable]
      exact hvalue
  | signed name value secret options =>
      have hok : read sha256 c (signed name value secret options) = some value ↔
          getSignedCookie sha256 c name.val secret = .ok value := by
        rw [read]
        cases getSignedCookie sha256 c name.val secret with
        | error e => exact ⟨by rintro ⟨⟩, by rintro ⟨⟩⟩
        | ok v =>
            rw [Except.toOption]
            exact Option.some_inj.trans ⟨fun h => h ▸ rfl, fun h => Except.ok.inj h⟩
      have htext : getCookie c name.val = some (signedValue sha256 secret value) ↔
          Unaltered (signedValue sha256 secret value) := by
        rw [← read_back_iff]
        exact (congrArg (· = some _) hget).to_iff.trans Option.some_inj
      have hkeyed : secret ≠ [] ∧ (CookieOptions.first options).Printable := hwritable
      rw [Survives, and_iff_right hkeyed]
      refine hok.trans ?_
      rw [getSignedCookie_ok_iff, and_iff_right hkeyed.1]
      refine and_congr_right (fun hvalue => ?_)
      rw [← @unaltered_signedValue_iff sha256 value secret hvalue]
      exact htext

/-- What is not found is not read. -/
theorem getCookie_of_read {c : Context} {call : CookieCall} {value : ByteString}
    (h : call.read sha256 c = some value) : ∃ text, getCookie c call.name.val = some text := by
  cases call with
  | plain name _ options => exact ⟨value, h⟩
  | signed name v secret options =>
      rw [read] at h
      cases hsigned : getSignedCookie sha256 c name.val secret with
      | error e =>
          rw [hsigned] at h
          cases h
      | ok v' => exact ⟨_, ((getSignedCookie_ok_iff c name.val secret v').mp hsigned).2.2⟩

end CookieCall

theorem respond_writable {calls : List CookieCall} : ∀ {c c' : Context},
    respond sha256 c calls = .ok c' → ∀ call ∈ calls, call.Writable := by
  induction calls with
  | nil =>
      intro c c' _ call hcall
      cases hcall
  | cons first calls ih =>
      intro c c' h
      rw [respond, List.foldlM_cons] at h
      cases hrun : first.run sha256 c with
      | error e =>
          rw [hrun] at h
          cases h
      | ok next =>
          rw [hrun] at h
          exact List.forall_mem_cons.mpr
            ⟨(CookieCall.run_ok_iff c first).mp ⟨next, hrun⟩, ih h⟩

/-! ## First calls -/

theorem firstCalls_sublist (responses : List (List CookieCall)) :
    (firstCalls responses).Sublist responses.flatten := by
  induction responses with
  | nil => exact List.Sublist.refl _
  | cons calls responses ih =>
      cases calls with
      | nil => exact ih
      | cons call calls => exact (ih.trans (List.sublist_append_right _ _)).cons_cons call

theorem mem_firstCalls {responses : List (List CookieCall)} {call : CookieCall} :
    call ∈ firstCalls responses ↔ ∃ calls ∈ responses, calls.head? = some call :=
  List.mem_filterMap

/-- Of calls that all differ, only the first of a response is a first call. -/
theorem head_of_mem_firstCalls {responses : List (List CookieCall)} (h : responses.flatten.Nodup)
    {calls : List CookieCall} (hcalls : calls ∈ responses) {call : CookieCall} (hcall : call ∈ calls)
    (hfirst : call ∈ firstCalls responses) : calls.head? = some call := by
  obtain ⟨calls', hcalls', hhead⟩ := mem_firstCalls.mp hfirst
  have hdisjoint := (List.nodup_flatten.mp h).2
  have hsymm : Std.Symm (List.Disjoint (α := CookieCall)) := ⟨fun _ _ hd => hd.symm⟩
  by_cases hsame : calls = calls'
  · rw [hsame]
    exact hhead
  · have hnone : List.Disjoint calls calls' :=
      hdisjoint.forall hcalls hcalls' hsame
    exact absurd (List.mem_of_mem_head? hhead) (hnone hcall)

variable (sha256)

/-- Every value is read again, and no cookie that was not set. -/
def ComesBack (fresh later : Context) (responses : List (List CookieCall)) : Prop :=
  ∃ contexts, List.Forall₂ (fun calls c => respond sha256 fresh calls = .ok c) responses contexts ∧
    (∀ call ∈ responses.flatten,
      call.read sha256 (later.withCookies (cookieHeader contexts)) = some call.value) ∧
    ∀ name, (∀ call ∈ responses.flatten, call.name.val ≠ name) →
      getCookie (later.withCookies (cookieHeader contexts)) name = none

variable {sha256}

theorem exists_forall₂ {α β : Type*} {R : α → β → Prop} {as : List α} (h : ∀ a ∈ as, ∃ b, R a b) :
    ∃ bs, List.Forall₂ R as bs := by
  induction as with
  | nil => exact ⟨[], List.Forall₂.nil⟩
  | cons a as ih =>
      obtain ⟨hfirst, hrest⟩ := List.forall_mem_cons.mp h
      obtain ⟨b, hb⟩ := hfirst
      obtain ⟨bs, hbs⟩ := ih hrest
      exact ⟨b :: bs, List.Forall₂.cons hb hbs⟩

theorem exists_of_forall₂ {α β : Type*} {R : α → β → Prop} {as : List α} {bs : List β}
    (h : List.Forall₂ R as bs) {a : α} (ha : a ∈ as) : ∃ b, R a b := by
  induction h with
  | nil => cases ha
  | cons hb _ ih =>
      rcases List.mem_cons.mp ha with rfl | ha
      · exact ⟨_, hb⟩
      · exact ih ha

/-- **SET AND SENT BACK.**  Cookies of distinct names come back if no response sets a second one
    and every value survives. -/
theorem comesBack_iff {fresh : Context} (hfresh : fresh.setCookieLine = none) (later : Context)
    (responses : List (List CookieCall))
    (hnames : (responses.flatten.map (fun call => call.name.val)).Nodup) :
    ComesBack sha256 fresh later responses ↔
      ∀ calls ∈ responses, calls.length ≤ 1 ∧ ∀ call ∈ calls, call.Survives := by
  have hfirstNames : ((firstCalls responses).map (fun call => call.name.val)).Nodup :=
    hnames.sublist ((firstCalls_sublist responses).map _)
  have hmem : ∀ calls ∈ responses, ∀ call ∈ calls, call ∈ responses.flatten :=
    fun calls hcalls call hcall => List.mem_flatten.mpr ⟨calls, hcalls, hcall⟩
  constructor
  · rintro ⟨contexts, hrespond, hreads, -⟩ calls hcalls
    have hget := getCookie_sentBack hfresh hrespond hfirstNames later
    -- a call that is read at all is the first of its response
    have hhead : ∀ call ∈ calls, calls.head? = some call := by
      intro call hcall
      obtain ⟨text, htext⟩ := CookieCall.getCookie_of_read (hreads call (hmem calls hcalls call hcall))
      obtain ⟨first, hfirst, hname, -⟩ := (hget _ _).mp htext
      obtain rfl : first = call := List.inj_on_of_nodup_map hnames
        ((firstCalls_sublist responses).subset hfirst) (hmem calls hcalls call hcall) hname
      exact head_of_mem_firstCalls (List.Nodup.of_map _ hnames) hcalls hcall hfirst
    obtain ⟨c, hc⟩ := exists_of_forall₂ hrespond hcalls
    refine ⟨?_, fun call hcall => ?_⟩
    · cases calls with
      | nil => exact Nat.zero_le _
      | cons first rest =>
          cases rest with
          | nil => exact Nat.le_refl _
          | cons second rest =>
              have hsecond := hhead second (List.mem_cons_of_mem _ (List.mem_cons_self ..))
              obtain rfl : first = second := Option.some.inj hsecond
              have hnodup := (List.nodup_flatten.mp (List.Nodup.of_map _ hnames)).1 _ hcalls
              exact absurd (List.mem_cons_self ..) (List.nodup_cons.mp hnodup).1
    · have hfirst := mem_firstCalls.mpr ⟨calls, hcalls, hhead call hcall⟩
      exact (CookieCall.read_iff (respond_writable hc call hcall)
        ((hget _ _).mpr ⟨call, hfirst, rfl, rfl⟩)).mp (hreads call (hmem calls hcalls call hcall))
  · intro h
    have hresponds : ∀ calls ∈ responses, ∃ c, respond sha256 fresh calls = .ok c := by
      intro calls hcalls
      obtain ⟨hlength, hsurvive⟩ := h calls hcalls
      cases calls with
      | nil => exact ⟨fresh, rfl⟩
      | cons call rest =>
          obtain rfl : rest = [] := List.length_eq_zero_iff.mp (by simpa using hlength)
          obtain ⟨c, hc⟩ := (CookieCall.run_ok_iff fresh call).mpr
            (hsurvive call (List.mem_cons_self ..)).writable
          refine ⟨c, ?_⟩
          rw [respond, List.foldlM_cons, hc]
          rfl
    obtain ⟨contexts, hrespond⟩ := exists_forall₂ hresponds
    have hget := getCookie_sentBack hfresh hrespond hfirstNames later
    refine ⟨contexts, hrespond, ?_, ?_⟩
    · intro call hcall
      obtain ⟨calls, hcalls, hcall⟩ := List.mem_flatten.mp hcall
      obtain ⟨hlength, hsurvive⟩ := h calls hcalls
      have hhead : calls.head? = some call := by
        cases calls with
        | nil => cases hcall
        | cons first rest =>
            obtain rfl : rest = [] := List.length_eq_zero_iff.mp (by simpa using hlength)
            rw [List.mem_singleton.mp hcall]
            rfl
      exact (CookieCall.read_iff (hsurvive call hcall).writable ((hget _ _).mpr
        ⟨call, mem_firstCalls.mpr ⟨calls, hcalls, hhead⟩, rfl, rfl⟩)).mpr (hsurvive call hcall)
    · intro name hname
      cases hfound : getCookie (later.withCookies (cookieHeader contexts)) name with
      | none => rfl
      | some text =>
          obtain ⟨call, hcall, heq, -⟩ := (hget name text).mp hfound
          exact absurd heq (hname call ((firstCalls_sublist responses).subset hcall))

end Signed

def nameA : CookieName := ⟨ascii "a", by decide, List.all_eq_true.mp (by decide)⟩

def nameB : CookieName := ⟨ascii "b", by decide, List.all_eq_true.mp (by decide)⟩

/-- A plain cookie and a signed one, each in a response of its own. -/
def separateCalls : List (List CookieCall) :=
  [[.plain nameA (ascii "1") []], [.signed nameB (ascii "alice") (ascii "k") []]]

theorem comesBack_separate :
    ComesBack aliceSha256 (cookieContext []) (cookieContext []) separateCalls := by
  have hprintable : (CookieOptions.first []).Printable := by rintro _ ⟨⟩
  have hone : Unaltered (ascii "1") := ⟨by decide, by decide, by decide⟩
  have halice : ∀ b, (ascii "alice").head? = some b → isSpace b = false := by
    rintro _ ⟨⟩
    rfl
  refine (comesBack_iff rfl (cookieContext []) separateCalls (by decide)).mpr ?_
  intro calls hcalls
  rcases List.mem_cons.mp hcalls with rfl | hcalls
  · refine ⟨Nat.le_refl _, fun call hcall => ?_⟩
    rw [List.mem_singleton.mp hcall]
    exact ⟨hprintable, hone⟩
  · rw [List.mem_singleton.mp hcalls]
    refine ⟨Nat.le_refl _, fun call hcall => ?_⟩
    rw [List.mem_singleton.mp hcall]
    exact ⟨⟨by decide, hprintable⟩, by decide, by decide, halice⟩

/-- A `;` cuts a value off, and the second cookie of a response is not sent back. -/
theorem not_comesBack :
    ¬ ComesBack aliceSha256 (cookieContext []) (cookieContext []) [[.plain nameA (ascii "x;y") []]] ∧
    ¬ ComesBack aliceSha256 (cookieContext []) (cookieContext [])
      [[.plain nameA (ascii "1") [], .plain nameB (ascii "2") []]] := by
  constructor
  · rintro ⟨contexts, hrespond, hreads, -⟩
    have hread := hreads (.plain nameA (ascii "x;y") []) (by simp)
    obtain ⟨call, hcall, -, htext⟩ :=
      (getCookie_sentBack rfl hrespond (by decide) _ _ _).mp hread
    rw [List.mem_singleton.mp hcall] at htext
    exact absurd htext (by decide)
  · rintro ⟨contexts, hrespond, hreads, -⟩
    have hread := hreads (.plain nameB (ascii "2") []) (by simp)
    obtain ⟨call, hcall, hname, -⟩ :=
      (getCookie_sentBack rfl hrespond (by decide) _ _ _).mp hread
    rw [List.mem_singleton.mp hcall] at hname
    exact absurd hname (by decide)

end VHono
