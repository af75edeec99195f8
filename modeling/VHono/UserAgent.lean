import VHono.ByteScan
import VHono.ByteDecimals

/-! # User agents with a cookie store

    How a user agent reads a `Set-Cookie` field, after RFC 6265: the name and
    the value stand before the first `;`, attributes after it, of which the last
    of each kind counts.  What a cookie does to the store is an effect on one
    entry, and effects one after another are one effect only in special cases. -/

/-! ## Effects on a store -/

namespace Effects

variable {κ α : Type*} [DecidableEq κ]

/-- What is done to one entry; `none` leaves the store alone. -/
abbrev Effect (κ α : Type*) := Option (κ × Option α)

def apply (store : κ → Option α) (e : Effect κ α) : κ → Option α :=
  match e with
  | none => store
  | some (k, entry) => Function.update store k entry

@[simp] theorem apply_some (store : κ → Option α) (k : κ) (entry : Option α) :
    apply store (some (k, entry)) = Function.update store k entry := rfl

/-- The effect does what the effects do one after another. -/
def Settles (e : Effect κ α) (es : List (Effect κ α)) : Prop :=
  match e with
  | none => es.reduceOption = []
  | some (k, entry) => (∀ e' ∈ es.reduceOption, e'.1 = k) ∧
      es.reduceOption.getLast? = some (k, entry)

instance [DecidableEq α] : ∀ (e : Effect κ α) (es : List (Effect κ α)), Decidable (Settles e es)
  | none, es => inferInstanceAs (Decidable (es.reduceOption = []))
  | some (k, entry), es => inferInstanceAs (Decidable ((∀ e' ∈ es.reduceOption, e'.1 = k) ∧
      es.reduceOption.getLast? = some (k, entry)))

theorem foldl_apply_reduceOption (es : List (Effect κ α)) (store : κ → Option α) :
    es.foldl apply store
      = es.reduceOption.foldl (fun store e => Function.update store e.1 e.2) store := by
  induction es generalizing store with
  | nil => rfl
  | cons e es ih =>
      cases e with
      | none => exact ih store
      | some e => exact ih _

/-- The last effect on an entry decides it. -/
theorem foldl_update_apply (es : List (κ × Option α)) (store : κ → Option α) (k : κ) :
    es.foldl (fun store e => Function.update store e.1 e.2) store k
      = ((es.filter (fun e => e.1 = k)).getLast?.map Prod.snd).getD (store k) := by
  induction es using List.reverseRecOn with
  | nil => rfl
  | append_singleton es e ih =>
      rw [List.foldl_concat, List.filter_append, List.filter_singleton]
      by_cases hk : e.1 = k
      · rw [decide_eq_true hk, cond_true, List.getLast?_concat, ← hk, Function.update_self]
        rfl
      · rw [decide_eq_false hk, cond_false, List.append_nil, Function.update_of_ne (Ne.symm hk), ih]

variable [Nonempty α]

/-- **ONE FOR MANY.**  An effect does to every store what effects do one after another exactly if
    it settles them. -/
theorem apply_eq_foldl_iff (e : Effect κ α) (es : List (Effect κ α)) :
    (∀ store, apply store e = es.foldl apply store) ↔ Settles e es := by
  -- an entry with an effect is given its entry whatever the store held
  have hother : ∀ entry : Option α, ∃ entry', entry' ≠ entry := by
    intro entry
    cases entry with
    | none => exact ⟨some (Classical.arbitrary α), by rintro ⟨⟩⟩
    | some a => exact ⟨none, by rintro ⟨⟩⟩
  have hforced : ∀ e' ∈ es.reduceOption, ∃ entry, ∀ store, es.foldl apply store e'.1 = entry := by
    intro e' he'
    have hne : es.reduceOption.filter (fun e => e.1 = e'.1) ≠ [] :=
      List.ne_nil_of_mem (List.mem_filter.mpr ⟨he', by simp⟩)
    obtain ⟨last, hlast⟩ := Option.ne_none_iff_exists'.mp (mt List.getLast?_eq_none_iff.mp hne)
    refine ⟨last.2, fun store => ?_⟩
    rw [foldl_apply_reduceOption, foldl_update_apply, hlast]
    rfl
  have hkey : (∀ store, apply store e = es.foldl apply store) → ∀ e' ∈ es.reduceOption,
      ∃ entry, e = some (e'.1, entry) := by
    intro h e' he'
    obtain ⟨entry, hentry⟩ := hforced e' he'
    obtain ⟨entry', hne⟩ := hother entry
    have hstore := congrFun (h (fun _ => entry')) e'.1
    rw [hentry] at hstore
    cases e with
    | none => exact absurd hstore hne
    | some effect =>
        obtain ⟨k, found⟩ := effect
        by_cases hk : e'.1 = k
        · exact ⟨found, by rw [hk]⟩
        · rw [apply_some, Function.update_of_ne hk] at hstore
          exact absurd hstore hne
  constructor
  · intro h
    cases e with
    | none =>
        show es.reduceOption = []
        refine List.eq_nil_iff_forall_not_mem.mpr (fun e' he' => ?_)
        obtain ⟨_, ⟨⟩⟩ := hkey h e' he'
    | some effect =>
        obtain ⟨k, entry⟩ := effect
        have hall : ∀ e' ∈ es.reduceOption, e'.1 = k := by
          intro e' he'
          obtain ⟨_, heq⟩ := hkey h e' he'
          cases heq
          rfl
        refine ⟨hall, ?_⟩
        have hfilter : es.reduceOption.filter (fun e' => e'.1 = k) = es.reduceOption :=
          List.filter_eq_self.mpr (fun e' he' => decide_eq_true (hall e' he'))
        obtain ⟨entry', hne⟩ := hother entry
        have hstore := congrFun (h (fun _ => entry')) k
        rw [foldl_apply_reduceOption, foldl_update_apply, hfilter, apply_some,
          Function.update_self] at hstore
        cases hlast : es.reduceOption.getLast? with
        | none =>
            rw [hlast] at hstore
            exact absurd hstore.symm hne
        | some last =>
            rw [hlast] at hstore
            obtain ⟨k', entry''⟩ := last
            have hk' : k' = k := hall _ (List.mem_of_mem_getLast? hlast)
            rw [hk', show entry = entry'' from hstore]
  · intro h store
    rw [foldl_apply_reduceOption]
    funext k'
    rw [foldl_update_apply]
    cases e with
    | none =>
        have hnil : es.reduceOption = [] := h
        rw [hnil]
        rfl
    | some effect =>
        obtain ⟨k, entry⟩ := effect
        obtain ⟨hall, hlast⟩ := h
        by_cases hk : k' = k
        · have hfilter : es.reduceOption.filter (fun e' => e'.1 = k') = es.reduceOption :=
            List.filter_eq_self.mpr (fun e' he' => decide_eq_true ((hall e' he').trans hk.symm))
          rw [hfilter, hlast, hk, apply_some, Function.update_self]
          rfl
        · have hfilter : es.reduceOption.filter (fun e' => e'.1 = k') = [] := by
            refine List.filter_eq_nil_iff.mpr (fun e' he' => ?_)
            rw [hall e' he']
            simpa using Ne.symm hk
          rw [hfilter, apply_some, Function.update_of_ne hk]
          rfl

end Effects

namespace UserAgent

open ByteString Effects

def isBlank (b : UInt8) : Bool := b == 32 || b == 9

def trimBlanks (s : ByteString) : ByteString :=
  ((s.dropWhile isBlank).reverse.dropWhile isBlank).reverse

theorem trimBlanks_eq_self {s : ByteString} (h : ∀ b ∈ s, isBlank b = false) : trimBlanks s = s := by
  have hdrop : ∀ t : ByteString, (∀ b ∈ t, isBlank b = false) → t.dropWhile isBlank = t :=
    fun t ht => dropWhile_eq_self (fun b hb => ht b (List.mem_of_mem_head? hb))
  rw [trimBlanks, hdrop s h, hdrop _ (fun b hb => h b (List.mem_reverse.mp hb)),
    List.reverse_reverse]

/-! ## Dates -/

def isDateDelimiter (b : UInt8) : Bool :=
  b == 0x09 || (0x20 ≤ b && b ≤ 0x2F) || (0x3B ≤ b && b ≤ 0x40) || (0x5B ≤ b && b ≤ 0x60) ||
    (0x7B ≤ b && b ≤ 0x7E)

def dateTokens (s : ByteString) : List ByteString :=
  (s.splitOnP isDateDelimiter).filter (fun t => t ≠ [])

/-- A number of at least `low` and at most `high` digits, and the text after it. -/
def leadingNumber (low high : Nat) (s : ByteString) : Option (Nat × ByteString) :=
  let digits := s.takeWhile isDigitByte
  if low ≤ digits.length ∧ digits.length ≤ high then
    (readDecimal digits).map (fun n => (n, s.drop digits.length))
  else none

/-- A number before a colon. -/
def colonNumber (s : ByteString) : Option (Nat × ByteString) :=
  match leadingNumber 1 2 s with
  | some (n, b :: rest) => if b = byte ':' then some (n, rest) else none
  | _ => none

def readTime (s : ByteString) : Option (Nat × Nat × Nat) :=
  match colonNumber s with
  | some (hour, s) =>
      match colonNumber s with
      | some (minute, s) => (leadingNumber 1 2 s).map (fun second => (hour, minute, second.1))
      | none => none
  | none => none

def months : List ByteString :=
  [ascii "jan", ascii "feb", ascii "mar", ascii "apr", ascii "may", ascii "jun", ascii "jul",
    ascii "aug", ascii "sep", ascii "oct", ascii "nov", ascii "dec"]

def readMonth (s : ByteString) : Option Nat := (months.idxOf? (toLower (s.take 3))).map (· + 1)

/-- The parts of a date that have been found. -/
structure DateParts where
  time  : Option (Nat × Nat × Nat)
  day   : Option Nat
  month : Option Nat
  year  : Option Nat

/-- A token is the first part that is still missing and that it can be. -/
def DateParts.token (parts : DateParts) (t : ByteString) : DateParts :=
  if parts.time = none ∧ readTime t ≠ none then { parts with time := readTime t }
  else if parts.day = none ∧ leadingNumber 1 2 t ≠ none then
    { parts with day := (leadingNumber 1 2 t).map Prod.fst }
  else if parts.month = none ∧ readMonth t ≠ none then { parts with month := readMonth t }
  else if parts.year = none ∧ leadingNumber 2 4 t ≠ none then
    { parts with year := (leadingNumber 2 4 t).map Prod.fst }
  else parts

def fullYear (year : Nat) : Nat :=
  if 70 ≤ year ∧ year ≤ 99 then year + 1900 else if year ≤ 69 then year + 2000 else year

def isLeap (year : Nat) : Bool := year % 4 == 0 && (year % 100 != 0 || year % 400 == 0)

def daysInMonth (year month : Nat) : Nat :=
  if month = 2 then (if isLeap year = true then 29 else 28)
  else if month = 4 ∨ month = 6 ∨ month = 9 ∨ month = 11 then 30
  else 31

/-- The days from 1 January 1970 on, counted in years that begin in March. -/
def civilDays (year month day : Nat) : Int :=
  let year := if month ≤ 2 then year - 1 else year
  let dayOfYear := (153 * (if month > 2 then month - 3 else month + 9) + 2) / 5 + day - 1
  (year * 365 + year / 4 - year / 100 + year / 400 + dayOfYear : Nat) - 719468

/-- The seconds of a date, if there is such a date and it is not before 1601. -/
def civilSeconds (year month day hour minute second : Nat) : Option Int :=
  if (1 ≤ month ∧ month ≤ 12) ∧ (1 ≤ day ∧ day ≤ daysInMonth year month) ∧ 1601 ≤ year ∧
      hour ≤ 23 ∧ minute ≤ 59 ∧ second ≤ 59 then
    some (((civilDays year month day * 24 + hour) * 60 + minute) * 60 + second)
  else none

def readDate (s : ByteString) : Option Int :=
  match (dateTokens s).foldl DateParts.token ⟨none, none, none, none⟩ with
  | ⟨some (hour, minute, second), some day, some month, some year⟩ =>
      civilSeconds (fullYear year) month day hour minute second
  | _ => none

/-! ## Attributes -/

/-- The request that a response answers, and when it comes. -/
structure Site where
  host         : ByteString
  isName       : Bool
  defaultPath  : ByteString
  publicSuffix : ByteString → Bool
  now          : Int
  now_pos      : 0 < now

structure Attributes where
  path     : Option ByteString := none
  domain   : Option ByteString := none
  maxAge   : Option Int := none
  expires  : Option Int := none
  secure   : Bool := false
  httpOnly : Bool := false
  deriving DecidableEq

/-- The last attribute of a kind counts. -/
def Attributes.after (a b : Attributes) : Attributes where
  path := b.path.or a.path
  domain := b.domain.or a.domain
  maxAge := b.maxAge.or a.maxAge
  expires := b.expires.or a.expires
  secure := a.secure || b.secure
  httpOnly := a.httpOnly || b.httpOnly

@[simp] theorem Attributes.after_none (a : Attributes) : a.after {} = a := by
  simp [Attributes.after]

@[simp] theorem Attributes.none_after (a : Attributes) : ({} : Attributes).after a = a := by
  simp [Attributes.after]

theorem Attributes.after_assoc (a b c : Attributes) :
    (a.after b).after c = a.after (b.after c) := by
  simp [Attributes.after, Option.or_assoc, Bool.or_assoc]

/-- A value with a sign. -/
def readDelta : ByteString → Option Int
  | [] => none
  | b :: s =>
      if b = byte '-' then (readDecimal s).map (fun n : Nat => -(n : Int))
      else (readDecimal (b :: s)).map (fun n : Nat => (n : Int))

theorem readDelta_intStr (n : Int) : readDelta (intStr n) = some n := by
  rw [intStr]
  by_cases hn : 0 ≤ n
  · rw [if_pos hn]
    obtain ⟨b, s, hs⟩ := List.exists_cons_of_ne_nil (decimal_ne_nil n.toNat)
    have hb : b ≠ byte '-' := by
      rintro rfl
      have hdigit := isDigitByte_of_mem_decimal (hs ▸ List.mem_cons_self (a := byte '-'))
      exact absurd hdigit (by decide)
    rw [hs, readDelta, if_neg hb, ← hs, readDecimal_decimal, Option.map_some,
      Int.toNat_of_nonneg hn]
  · rw [if_neg hn, readDelta, if_pos rfl, readDecimal_decimal, Option.map_some]
    congr 1
    omega

def domainOf (value : ByteString) : Option ByteString :=
  if value = [] then none
  else some (toLower (if value.head? = some (byte '.') then value.tail else value))

def pathOf (site : Site) (value : ByteString) : ByteString :=
  if value.head? = some (byte '/') then value else site.defaultPath

def namedAttribute (site : Site) (name value : ByteString) : Attributes :=
  if eqIgnoreCase name (ascii "Expires") = true then { expires := readDate value }
  else if eqIgnoreCase name (ascii "Max-Age") = true then { maxAge := readDelta value }
  else if eqIgnoreCase name (ascii "Domain") = true then { domain := domainOf value }
  else if eqIgnoreCase name (ascii "Path") = true then { path := some (pathOf site value) }
  else if eqIgnoreCase name (ascii "Secure") = true then { secure := true }
  else if eqIgnoreCase name (ascii "HttpOnly") = true then { httpOnly := true }
  else {}

/-- The name stands before the first `=`. -/
def attributeOf (site : Site) (av : ByteString) : Attributes :=
  namedAttribute site (trimBlanks (av.takeWhile (fun b => b ≠ byte '=')))
    (trimBlanks ((av.dropWhile (fun b => b ≠ byte '=')).drop 1))

theorem attributeOf_pair (site : Site) {name : ByteString} (hname : byte '=' ∉ name)
    (value : ByteString) : attributeOf site (name ++ byte '=' :: value)
      = namedAttribute site (trimBlanks name) (trimBlanks value) := by
  have hall : ∀ b ∈ name, decide (b ≠ byte '=') = true := by
    intro b hb
    rw [decide_eq_true_eq]
    rintro rfl
    exact hname hb
  have htake : (name ++ byte '=' :: value).takeWhile (fun b => b ≠ byte '=') = name :=
    (takeWhile_append_all hall).trans (List.append_nil name)
  have hdrop : (name ++ byte '=' :: value).dropWhile (fun b => b ≠ byte '=') = byte '=' :: value :=
    dropWhile_all hall
  rw [attributeOf, htake, hdrop]
  rfl

theorem attributeOf_flag (site : Site) {name : ByteString} (hname : byte '=' ∉ name) :
    attributeOf site name = namedAttribute site (trimBlanks name) [] := by
  have hall : ∀ b ∈ name, decide (b ≠ byte '=') = true := by
    intro b hb
    rw [decide_eq_true_eq]
    rintro rfl
    exact hname hb
  have htake := takeWhile_append_all (s := []) hall
  have hdrop := dropWhile_all (s := []) hall
  rw [List.append_nil] at htake hdrop
  rw [attributeOf, htake, hdrop, List.takeWhile_nil, List.append_nil]
  rfl

def readAttributes (site : Site) (avs : List ByteString) : Attributes :=
  avs.foldl (fun a av => a.after (attributeOf site av)) {}

theorem readAttributes_cons (site : Site) (av : ByteString) (avs : List ByteString) :
    readAttributes site (av :: avs) = (attributeOf site av).after (readAttributes site avs) := by
  have hfold : ∀ (avs : List ByteString) (a : Attributes),
      avs.foldl (fun a av => a.after (attributeOf site av)) a
        = a.after (readAttributes site avs) := by
    intro avs
    induction avs with
    | nil => exact fun a => a.after_none.symm
    | cons av avs ih =>
        intro a
        rw [readAttributes, List.foldl_cons, List.foldl_cons, ih, ih, Attributes.none_after,
          Attributes.after_assoc]
  rw [readAttributes, List.foldl_cons, hfold, Attributes.none_after]

theorem readAttributes_append (site : Site) (avs avs' : List ByteString) :
    readAttributes site (avs ++ avs')
      = (readAttributes site avs).after (readAttributes site avs') := by
  induction avs with
  | nil => exact (Attributes.none_after _).symm
  | cons av avs ih =>
      rw [List.cons_append, readAttributes_cons, readAttributes_cons, ih, Attributes.after_assoc]

/-! ## Cookies -/

structure ReadCookie where
  name       : ByteString
  value      : ByteString
  attributes : Attributes
  deriving DecidableEq

/-- A pair without `=` and one without a name are passed over. -/
def readPair (pair : ByteString) : Option (ByteString × ByteString) :=
  match pair.idxOf? (byte '=') with
  | none => none
  | some i =>
      if trimBlanks (pair.take i) = [] then none
      else some (trimBlanks (pair.take i), trimBlanks (pair.drop (i + 1)))

/-- The cookie of a line that was split at `;`. -/
def readPieces (site : Site) : List ByteString → Option ReadCookie
  | [] => none
  | pair :: avs =>
      (readPair pair).map (fun (name, value) => ⟨name, value, readAttributes site avs⟩)

def readSetCookie (site : Site) (line : ByteString) : Option ReadCookie :=
  readPieces site (line.splitOn (byte ';'))

/-! ## The store -/

/-- Times of creation and of access are left out. -/
structure StoredCookie where
  value    : ByteString
  expiry   : Option Int
  hostOnly : Bool
  secure   : Bool
  httpOnly : Bool
  deriving DecidableEq, Inhabited

/-- The name, the domain and the path of a cookie. -/
abbrev CookieKey := ByteString × ByteString × ByteString

abbrev Jar := CookieKey → Option StoredCookie

def domainMatches (site : Site) (domain : ByteString) : Bool :=
  site.host == domain || (site.isName && (byte '.' :: domain).isSuffixOf site.host)

/-- The domain of a cookie, and whether it is for the host alone; `none` if it is refused. -/
def cookieDomain (site : Site) (a : Attributes) : Option (ByteString × Bool) :=
  let domain := a.domain.getD []
  if domain = [] then some (site.host, true)
  else if site.publicSuffix domain = true then
    if domain = site.host then some (site.host, true) else none
  else if domainMatches site domain = true then some (domain, false)
  else none

def lapsed (site : Site) (a : Attributes) : Bool :=
  match a.maxAge with
  | some n => decide (n ≤ 0)
  | none =>
      match a.expires with
      | some t => decide (t < site.now)
      | none => false

def expiryOf (site : Site) (a : Attributes) : Option Int :=
  match a.maxAge with
  | some n => some (site.now + n)
  | none => a.expires

/-- A cookie replaces the one with its name, domain and path; an expired one only removes it. -/
def effect (site : Site) (c : ReadCookie) : Effect CookieKey StoredCookie :=
  (cookieDomain site c.attributes).map (fun (domain, hostOnly) =>
    ((c.name, domain, c.attributes.path.getD site.defaultPath),
      if lapsed site c.attributes = true then none
      else some ⟨c.value, expiryOf site c.attributes, hostOnly, c.attributes.secure,
        c.attributes.httpOnly⟩))

/-- The store after the `Set-Cookie` fields of a response. -/
def receive (site : Site) (jar : Jar) (fields : List ByteString) : Jar :=
  fields.foldl (fun jar line => apply jar ((readSetCookie site line).bind (effect site))) jar

end UserAgent
