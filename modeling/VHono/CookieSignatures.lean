import VHono.Cookies

/-! # What a signed cookie vouches for

    The signature covers the value of a cookie and not its name.  So from a
    header in which no signatures occur but those the server made, only values
    are accepted that the server signed, and each under any name. -/

namespace VHono

open ByteString

/-- A call of `set_signed_cookie` under the secret of the server. -/
structure SignedCall where
  name    : ByteString
  value   : ByteString
  options : List CookieOptions := []

/-- A marked word stands before a mark, right after it, or behind the text that follows it. -/
theorem marked_part {c : UInt8} {w s t rest : ByteString} (hw : c ∉ w) (hs : c ∉ s)
    (h : c :: w <:+: t ++ c :: (s ++ rest)) :
    c :: w <:+: t ∨ w <+: s ++ rest ∨ c :: w <:+: rest := by
  obtain ⟨a, b, hab⟩ := h
  rw [List.append_assoc, List.cons_append] at hab
  rcases List.append_eq_append_iff.mp hab with ⟨mid, rfl, hright⟩ | ⟨mid, rfl, hright⟩
  · cases mid with
    | nil => exact Or.inr (Or.inl ⟨b, (List.cons.inj hright).2⟩)
    | cons d mid =>
        -- the mark is in the first text, and so is the word after it
        obtain ⟨rfl, hword⟩ := List.cons.inj hright
        refine Or.inl ?_
        rcases List.append_eq_append_iff.mp hword with ⟨after, rfl, -⟩ | ⟨after, rfl, hafter⟩
        · exact ⟨a, after, by simp⟩
        · cases after with
          | nil => exact ⟨a, [], by simp⟩
          | cons d after =>
              obtain ⟨rfl, -⟩ := List.cons.inj hafter
              exact absurd (by simp) hw
  · cases mid with
    | nil => exact Or.inr (Or.inl ⟨b, (List.cons.inj hright).2.symm⟩)
    | cons d mid =>
        -- the mark comes after the text that has none
        obtain ⟨-, htail⟩ := List.cons.inj hright
        refine Or.inr (Or.inr ?_)
        rcases List.append_eq_append_iff.mp htail with ⟨after, -, hafter⟩ | ⟨after, rfl, hafter⟩
        · exact ⟨after, b, by rw [hafter]; simp⟩
        · cases after with
          | nil => exact ⟨[], b, by rw [List.nil_append] at hafter; rw [← hafter]; simp⟩
          | cons d after =>
              obtain ⟨rfl, -⟩ := List.cons.inj hafter
              exact absurd (by simp) hs

section Signed

variable (sha256 : ByteString → Digest) (secret : ByteString)

/-- The text that a call writes after the name. -/
def signedValue (value : ByteString) : ByteString :=
  value ++ byte '.' :: generateHmacSignature sha256 value secret

/-- No message but an issued one has the signature of the issued one. -/
def NoCollision (calls : List SignedCall) : Prop :=
  ∀ call ∈ calls, ∀ value, generateHmacSignature sha256 value secret
    = generateHmacSignature sha256 call.value secret → value = call.value

/-- The text carries signatures of issued values only. -/
def Assembled (calls : List SignedCall) (text : ByteString) : Prop :=
  ∀ value, byte '.' :: generateHmacSignature sha256 value secret <:+: text →
    ∃ call ∈ calls, generateHmacSignature sha256 value secret
      = generateHmacSignature sha256 call.value secret

variable {sha256 secret}

theorem setSignedCookie_eq (c : Context) (call : SignedCall) (hsecret : secret ≠ []) :
    setSignedCookie sha256 c call.name call.value secret call.options
      = setCookie c call.name (signedValue sha256 secret call.value) call.options := by
  have htext : call.value ++ ascii "." ++ generateHmacSignature sha256 call.value secret
      = signedValue sha256 secret call.value := List.append_assoc _ _ _
  rw [setSignedCookie, if_neg (fun h => hsecret (List.length_eq_zero_iff.mp h)), ← htext]
  rfl

theorem Assembled.part {calls : List SignedCall} {s t : ByteString}
    (h : Assembled sha256 secret calls t) (hst : s <:+: t) : Assembled sha256 secret calls s :=
  fun value hvalue => h value (hvalue.trans hst)

/-- An issued signature after such a text, and then such a text again. -/
theorem Assembled.signed {calls : List SignedCall} {text rest : ByteString} {call : SignedCall}
    (hcall : call ∈ calls) (htext : Assembled sha256 secret calls text)
    (hrest : Assembled sha256 secret calls rest) :
    Assembled sha256 secret calls
      (text ++ byte '.' :: (generateHmacSignature sha256 call.value secret ++ rest)) := by
  intro value hvalue
  have hdot : ∀ v, byte '.' ∉ generateHmacSignature sha256 v secret :=
    fun v => not_mem_signature v secret (by decide)
  rcases marked_part (hdot value) (hdot call.value) hvalue with hin | hprefix | hin
  · exact htext value hin
  · refine ⟨call, hcall, ?_⟩
    obtain ⟨tail, htail⟩ := hprefix
    refine List.append_inj_left htail ?_
    rw [length_signature, length_signature]
  · exact hrest value hin

/-- A header of cookies, each a text with an issued signature after it. -/
theorem assembled_cookies {calls : List SignedCall} :
    ∀ cookies : List (ByteString × SignedCall),
      (∀ cookie ∈ cookies, Assembled sha256 secret calls cookie.1 ∧ cookie.2 ∈ calls) →
      Assembled sha256 secret calls ((ascii "; ").intercalate (cookies.map (fun cookie =>
        cookie.1 ++ byte '.' :: generateHmacSignature sha256 cookie.2.value secret))) := by
  have hsep : ∀ s, Assembled sha256 secret calls s →
      Assembled sha256 secret calls (ascii "; " ++ s) := by
    intro s hs value hvalue
    refine hs value ?_
    rcases List.infix_cons_iff.mp hvalue with hfirst | hvalue
    · exact absurd (List.cons_prefix_cons.mp hfirst).1 (by decide)
    · rcases List.infix_cons_iff.mp hvalue with hsecond | hvalue
      · exact absurd (List.cons_prefix_cons.mp hsecond).1 (by decide)
      · exact hvalue
  have hempty : Assembled sha256 secret calls [] := by
    rintro value hvalue
    exact absurd (List.infix_nil.mp hvalue) (List.cons_ne_nil _ _)
  intro cookies
  induction cookies with
  | nil =>
      intro _
      exact hempty
  | cons cookie cookies ih =>
      intro h
      obtain ⟨hfirst, hrest⟩ := List.forall_mem_cons.mp h
      cases cookies with
      | nil =>
          have hone := Assembled.signed hfirst.2 hfirst.1 hempty
          rw [List.append_nil] at hone
          rw [List.map_singleton, List.intercalate_singleton]
          exact hone
      | cons second cookies =>
          have hmore := Assembled.signed hfirst.2 hfirst.1 (hsep _ (ih hrest))
          rw [List.map_cons, List.map_cons, List.intercalate_cons_cons, List.append_assoc,
            List.append_assoc, List.cons_append]
          exact hmore

/-- A header with an issued signature is accepted for the value it was issued for. -/
theorem value_signed {calls : List SignedCall} {c : Context} {header name value : ByteString}
    (hcollision : NoCollision sha256 secret calls)
    (hheader : c.req.header.getCustom (ascii "Cookie") = some header)
    (hassembled : Assembled sha256 secret calls header)
    (h : getSignedCookie sha256 c name secret = .ok value) :
    ∃ call ∈ calls, call.value = value := by
  obtain ⟨-, -, hget⟩ := (getSignedCookie_ok_iff c name secret value).mp h
  obtain ⟨header', hheader', pair, hpair, hparse⟩ := getCookie_some hget
  obtain rfl : header = header' := Option.some.inj (hheader.symm.trans hheader')
  have hpart : byte '.' :: generateHmacSignature sha256 value secret <:+: header :=
    (List.suffix_append _ _).isInfix.trans
      ((parseCookiePair_part hparse).trans (splitOn_part hpair))
  obtain ⟨call, hcall, hsame⟩ := hassembled value hpart
  exact ⟨call, hcall, (hcollision call hcall value hsame).symm⟩

end Signed

/-! ## A value under two names -/

/-- A request for `/` with a `Cookie` header. -/
def cookieContext (header : ByteString) : Context where
  req := { method := .get, url := ascii "/", data := [], header := [(ascii "Cookie", header)] }
  params := .empty
  query := .empty
  url := ascii "/"
  path := ascii "/"
  statusCode := 200
  headers := .empty
  body := []
  store := .empty

/-- The sum of the key block for `k` under the inner pad, and of `alice`. -/
def innerSum : Digest :=
  ⟨[143, 114, 80, 155, 44, 112, 13, 126, 172, 126, 80, 79, 108, 95, 230, 186, 57, 3, 42, 145, 249,
    168, 13, 121, 238, 77, 105, 32, 21, 43, 121, 10], rfl⟩

/-- The sum of the key block for `k` under the outer pad, and of the inner sum. -/
def outerSum : Digest :=
  ⟨[236, 99, 26, 85, 187, 129, 245, 185, 220, 150, 170, 147, 10, 69, 98, 141, 69, 42, 190, 65, 248,
    153, 219, 16, 133, 188, 53, 12, 12, 156, 249, 161], rfl⟩

def innerPad : ByteString := (ascii "k" ++ List.replicate 63 0).map (· ^^^ 0x36)

def outerPad : ByteString := (ascii "k" ++ List.replicate 63 0).map (· ^^^ 0x5c)

/-- SHA-256 where it is needed to sign `alice`; zeros elsewhere. -/
def aliceSha256 (data : ByteString) : Digest :=
  if data = innerPad ++ ascii "alice" then innerSum
  else if data = outerPad ++ innerSum.val then outerSum
  else ⟨List.replicate 32 0, rfl⟩

def aliceCall : SignedCall := { name := ascii "user", value := ascii "alice" }

example : generateHmacSignature aliceSha256 (ascii "alice") (ascii "k")
    = ascii "7GMaVbuB9bnclqqTCkVijUUqvkH4mdsQhbw1DAyc-aE" := by
  decide

theorem alice_no_collision : NoCollision aliceSha256 (ascii "k") [aliceCall] := by
  intro call hcall value hsame
  obtain rfl := List.mem_singleton.mp hcall
  by_contra hvalue
  have hinner : aliceSha256 (innerPad ++ value) = ⟨List.replicate 32 0, rfl⟩ := by
    have halice : ¬ innerPad ++ value = innerPad ++ ascii "alice" :=
      fun h => hvalue (List.append_cancel_left h)
    rw [aliceSha256, if_neg halice, if_neg]
    intro h
    exact absurd (List.append_inj_left h (by decide)) (by decide)
  have hsignature : generateHmacSignature aliceSha256 value (ascii "k")
      = (urlEncode (aliceSha256 (outerPad ++ (aliceSha256 (innerPad ++ value)).val)).val).filter
        (fun b => b ≠ byte '=') := rfl
  rw [hsignature, hinner] at hsame
  exact absurd hsame (by decide +kernel)

/-- A header with the cookie of `user` under the name `admin`. -/
def renamedHeader : ByteString :=
  ascii "admin=" ++ signedValue aliceSha256 (ascii "k") aliceCall.value

theorem renamed_assembled : Assembled aliceSha256 (ascii "k") [aliceCall] renamedHeader := by
  have htext : Assembled aliceSha256 (ascii "k") [aliceCall] (ascii "admin=alice") := by
    intro value hvalue
    have hlength := hvalue.length_le
    rw [List.length_cons, length_signature] at hlength
    exact absurd hlength (by decide)
  exact assembled_cookies [(ascii "admin=alice", aliceCall)] (by
    rintro _ hcookie
    rw [List.mem_singleton.mp hcookie]
    exact ⟨htext, List.mem_singleton_self _⟩)

theorem alice_as_admin : getSignedCookie aliceSha256 (cookieContext renamedHeader) (ascii "admin")
    (ascii "k") = .ok (ascii "alice") := by
  decide +kernel

theorem value_signed_renamed : ∃ call ∈ [aliceCall], call.value = ascii "alice" :=
  value_signed alice_no_collision rfl renamed_assembled alice_as_admin

/-- The name is not covered: the value signed for `user` is accepted for `admin`. -/
theorem name_not_signed : NoCollision aliceSha256 (ascii "k") [aliceCall] ∧
    Assembled aliceSha256 (ascii "k") [aliceCall] renamedHeader ∧
    getSignedCookie aliceSha256 (cookieContext renamedHeader) (ascii "admin") (ascii "k")
      = .ok (ascii "alice") ∧
    ¬ ∃ call ∈ [aliceCall], call.name = ascii "admin" ∧ call.value = ascii "alice" :=
  ⟨alice_no_collision, renamed_assembled, alice_as_admin, by decide⟩

end VHono
