import VHono.Jwt
import VHono.ByteCompare

/-! # Tokens that are accepted

    Verification reads a token in three parts.  The signature has to be the
    text of the keyed hash of the other two, so where the hash tells messages
    apart a token is given by its signature; and the header names the one
    algorithm under which the token can be accepted. -/

namespace VHono

open ByteString

/-! ## base64url -/

theorem replaceStr_single (s : ByteString) (c d : UInt8) :
    replaceStr s [c] [d] = s.map (fun b => if b = c then d else b) := by
  rw [replaceStr_byte]
  induction s with
  | nil => rfl
  | cons b s ih =>
      rw [List.flatMap_cons, ih, List.map_cons]
      split <;> rfl

/-- A digit in its place in a URL, and back. -/
def urlDigit (b : UInt8) : UInt8 :=
  let b := if b = byte '+' then byte '-' else b
  if b = byte '/' then byte '_' else b

def plainDigit (b : UInt8) : UInt8 :=
  let b := if b = byte '-' then byte '+' else b
  if b = byte '_' then byte '/' else b

theorem replace_url (s : ByteString) :
    replaceStr (replaceStr s (ascii "+") (ascii "-")) (ascii "/") (ascii "_") = s.map urlDigit := by
  show replaceStr (replaceStr s [byte '+'] [byte '-']) [byte '/'] [byte '_'] = _
  rw [replaceStr_single, replaceStr_single, List.map_map]
  rfl

theorem replace_plain (s : ByteString) :
    replaceStr (replaceStr s (ascii "-") (ascii "+")) (ascii "_") (ascii "/")
      = s.map plainDigit := by
  show replaceStr (replaceStr s [byte '-'] [byte '+']) [byte '_'] [byte '/'] = _
  rw [replaceStr_single, replaceStr_single, List.map_map]
  rfl

theorem trimPadding_append {s : ByteString} (hs : byte '=' ∉ s) (n : Nat) :
    trimPadding (s ++ List.replicate n (byte '=')) = s := by
  have hpad : ∀ b ∈ List.replicate n (byte '='), (b == byte '=') = true := by
    intro b hb
    rw [(List.mem_replicate.mp hb).2, beq_self_eq_true]
  have hkeep : (s.reverse.dropWhile (fun c => c == byte '=')) = s.reverse := by
    refine dropWhile_eq_self (fun b hb => beq_eq_false_iff_ne.mpr ?_)
    rintro rfl
    exact hs (List.mem_reverse.mp (List.mem_of_mem_head? hb))
  rw [trimPadding, List.reverse_append, List.reverse_replicate, List.dropWhile_append_of_pos hpad,
    hkeep, List.reverse_reverse]

theorem digit_url : ∀ n < 64, urlDigit (Base64.digit n) ≠ byte '=' ∧
    urlDigit (Base64.digit n) ≠ byte '.' ∧
    plainDigit (urlDigit (Base64.digit n)) = Base64.digit n := by
  decide

theorem base64urlEncode_eq (data : ByteString) :
    base64urlEncode data = (Base64.digits data).map urlDigit := by
  have hpad : byte '=' ∉ (Base64.digits data).map urlDigit := by
    intro h
    obtain ⟨c, hc, heq⟩ := List.mem_map.mp h
    obtain ⟨n, hn, rfl⟩ := Base64.mem_digits hc
    exact (digit_url n hn).1 heq
  rw [base64urlEncode, replace_url, Base64.encode, List.map_append, List.map_replicate]
  exact trimPadding_append hpad _

theorem not_dot_mem_base64urlEncode (data : ByteString) : byte '.' ∉ base64urlEncode data := by
  rw [base64urlEncode_eq]
  intro h
  obtain ⟨c, hc, heq⟩ := List.mem_map.mp h
  obtain ⟨n, hn, rfl⟩ := Base64.mem_digits hc
  exact (digit_url n hn).2.1 heq

theorem base64urlDecode_encode (data : ByteString) :
    base64urlDecode (base64urlEncode data) = data := by
  have hback : ((Base64.digits data).map urlDigit).map plainDigit = Base64.digits data := by
    rw [List.map_map]
    refine (List.map_congr_left (fun c hc => ?_)).trans (List.map_id _)
    obtain ⟨n, hn, rfl⟩ := Base64.mem_digits hc
    rw [Function.comp_apply, (digit_url n hn).2.2, id]
  rw [base64urlDecode, base64urlEncode_eq, replace_plain, hback]
  exact Base64.decode_encode data

theorem base64urlEncode_injective : Function.Injective base64urlEncode :=
  Function.LeftInverse.injective base64urlDecode_encode

/-- Letters, digits, `-` and `_`. -/
def isUrlDigit (b : UInt8) : Bool :=
  (byte 'A' ≤ b && b ≤ byte 'Z') || (byte 'a' ≤ b && b ≤ byte 'z') || isDigitByte b ||
    b == byte '-' || b == byte '_'

theorem isUrlDigit_digit : ∀ n < 64, isUrlDigit (urlDigit (Base64.digit n)) = true := by
  decide

/-- **THE CODE OF A URL.**  It is read back, holds its own characters only, and tells all texts
    apart. -/
theorem base64url_roundTrip :
    (∀ data, base64urlDecode (base64urlEncode data) = data) ∧
      (∀ data, ∀ b ∈ base64urlEncode data, isUrlDigit b = true ∧ b ≠ byte '.' ∧ b ≠ byte '=') ∧
      Function.Injective base64urlEncode := by
  refine ⟨base64urlDecode_encode, fun data b hb => ?_, base64urlEncode_injective⟩
  rw [base64urlEncode_eq] at hb
  obtain ⟨c, hc, rfl⟩ := List.mem_map.mp hb
  obtain ⟨n, hn, rfl⟩ := Base64.mem_digits hc
  exact ⟨isUrlDigit_digit n hn, (digit_url n hn).2.1, (digit_url n hn).1⟩

/-! ## Comparing -/

theorem foldl_differences (pairs : List (UInt8 × UInt8)) (result : UInt8) :
    pairs.foldl (fun result pair => result ||| (pair.1 ^^^ pair.2)) result = 0 ↔
      result = 0 ∧ ∀ pair ∈ pairs, pair.1 = pair.2 := by
  induction pairs generalizing result with
  | nil => simp
  | cons pair pairs ih =>
      rw [List.foldl_cons, ih, UInt8.or_eq_zero_iff, UInt8.xor_eq_zero_iff, List.forall_mem_cons,
        and_assoc]

/-- The loop tells strings apart. -/
theorem constantTimeCompareJwt_iff (a b : ByteString) :
    constantTimeCompareJwt a b = true ↔ a = b := by
  rw [constantTimeCompareJwt]
  by_cases hlength : a.length = b.length
  · rw [if_neg (not_not.mpr hlength), beq_iff_eq, foldl_differences, and_iff_right rfl]
    constructor
    · intro h
      have heq : (a.zip b).map Prod.fst = (a.zip b).map Prod.snd := List.map_congr_left h
      rwa [List.map_fst_zip (Nat.le_of_eq hlength),
        List.map_snd_zip (Nat.le_of_eq hlength.symm)] at heq
    · rintro rfl pair hmem
      obtain ⟨i, hi, rfl⟩ := List.getElem_of_mem hmem
      rw [List.getElem_zip]
  · rw [if_pos hlength]
    exact ⟨by rintro ⟨⟩, fun h => absurd (congrArg List.length h) hlength⟩

/-! ## Verifying -/

/-- The algorithm that the first part of a token names. -/
def headerAlg (json2 : Json2) (header : ByteString) : Option JwtAlgorithm :=
  match JsonText.decode (base64urlDecode header) with
  | none => none
  | some raw =>
      (stringToAlg (json2.str (((asMap raw).get? (ascii "alg")).getD (.string [])))).toOption

/-- The third part of a token. -/
def signaturePart (token : ByteString) : ByteString := (token.splitOn (byte '.')).getD 2 []

section Verify

variable {json2 : Json2} {hashes : KeyedHashes} {token secret : ByteString} {alg : JwtAlgorithm}
variable {result : JwtPayload}

/-- What verification accepts. -/
theorem verifyJwt_eq_ok :
    verifyJwt json2 hashes token secret alg = .ok result ↔
      secret ≠ [] ∧ ∃ header payload,
        token.splitOn (byte '.') = [header, payload,
          base64urlEncode (hashes.signMessage (header ++ ascii "." ++ payload) secret alg)] ∧
        headerAlg json2 header = some alg ∧ decodeJwt json2 token = .ok result := by
  rw [verifyJwt]
  by_cases hsecret : secret.length = 0
  · rw [if_pos hsecret]
    exact ⟨by rintro ⟨⟩, fun h => absurd (List.length_eq_zero_iff.mp hsecret) h.1⟩
  · rw [if_neg hsecret, and_iff_right (fun h => hsecret (List.length_eq_zero_iff.mpr h))]
    generalize token.splitOn (byte '.') = parts
    rcases parts with _ | ⟨header, _ | ⟨payload, _ | ⟨signature, _ | ⟨more, rest⟩⟩⟩⟩
    · exact ⟨by rintro ⟨⟩, by rintro ⟨_, _, ⟨⟩, -⟩⟩
    · exact ⟨by rintro ⟨⟩, by rintro ⟨_, _, ⟨⟩, -⟩⟩
    · exact ⟨by rintro ⟨⟩, by rintro ⟨_, _, ⟨⟩, -⟩⟩
    · have hparts : (∃ header' payload', [header, payload, signature] = [header', payload',
            base64urlEncode (hashes.signMessage (header' ++ ascii "." ++ payload') secret alg)] ∧
          headerAlg json2 header' = some alg ∧ decodeJwt json2 token = .ok result) ↔
          headerAlg json2 header = some alg ∧ signature =
            base64urlEncode (hashes.signMessage (header ++ ascii "." ++ payload) secret alg) ∧
          decodeJwt json2 token = .ok result := by
        constructor
        · rintro ⟨header', payload', hparts, halg, hdecode⟩
          obtain ⟨rfl, hrest⟩ := List.cons.inj hparts
          obtain ⟨rfl, hrest⟩ := List.cons.inj hrest
          obtain ⟨hsignature, -⟩ := List.cons.inj hrest
          exact ⟨halg, hsignature, hdecode⟩
        · rintro ⟨halg, rfl, hdecode⟩
          exact ⟨header, payload, rfl, halg, hdecode⟩
      rw [hparts, headerAlg]
      dsimp only
      cases JsonText.decode (base64urlDecode header) with
      | none => exact ⟨by rintro ⟨⟩, by rintro ⟨⟨⟩, -⟩⟩
      | some raw =>
          dsimp only
          cases stringToAlg (json2.str (((asMap raw).get? (ascii "alg")).getD (.string []))) with
          | error e => exact ⟨by rintro ⟨⟩, by rintro ⟨⟨⟩, -⟩⟩
          | ok tokenAlg =>
              dsimp only [Except.toOption]
              rw [Option.some_inj]
              by_cases halg : tokenAlg = alg
              · rw [if_neg (not_not.mpr halg), and_iff_right halg, ← constantTimeCompareJwt_iff]
                cases constantTimeCompareJwt signature (base64urlEncode
                    (hashes.signMessage (header ++ ascii "." ++ payload) secret alg)) with
                | false => exact ⟨by rintro ⟨⟩, by rintro ⟨⟨⟩, -⟩⟩
                | true => exact (and_iff_right rfl).symm
              · rw [if_pos halg]
                exact ⟨by rintro ⟨⟩, fun h => absurd h.1 halg⟩
    · exact ⟨by rintro ⟨⟩, by rintro ⟨_, _, ⟨⟩, -⟩⟩

/-- The token is accepted. -/
def Accepted (json2 : Json2) (hashes : KeyedHashes) (token secret : ByteString)
    (alg : JwtAlgorithm) : Prop :=
  ∃ result, verifyJwt json2 hashes token secret alg = .ok result

instance : Decidable (Accepted json2 hashes token secret alg) :=
  decidable_of_iff ((verifyJwt json2 hashes token secret alg).toOption.isSome = true) (by
    rw [Accepted]
    cases verifyJwt json2 hashes token secret alg with
    | error e => exact ⟨nofun, fun ⟨_, h⟩ => nomatch h⟩
    | ok result => exact ⟨fun _ => ⟨result, rfl⟩, fun _ => rfl⟩)

/-- An accepted token is its signing input and the text of the hash of it. -/
theorem Accepted.token_eq (h : Accepted json2 hashes token secret alg) :
    ∃ message, token = message ++ ascii "." ++ signaturePart token ∧
      signaturePart token = base64urlEncode (hashes.signMessage message secret alg) := by
  obtain ⟨result, h⟩ := h
  obtain ⟨-, header, payload, hsplit, -⟩ := verifyJwt_eq_ok.mp h
  have hjoin : List.intercalate [byte '.'] (token.splitOn (byte '.')) = token :=
    List.intercalate_splitOn (byte '.')
  have hpart : signaturePart token
      = base64urlEncode (hashes.signMessage (header ++ ascii "." ++ payload) secret alg) := by
    rw [signaturePart, hsplit]
    rfl
  refine ⟨header ++ ascii "." ++ payload, ?_, hpart⟩
  rw [hsplit] at hjoin
  rw [hpart, ← hjoin]
  simp [List.intercalate_cons_cons, ascii, byte]

end Verify

/-- **ONE TOKEN A SIGNATURE.**  Where the keyed hashes tell messages apart, accepted tokens of one
    signature are one token; and no token is accepted under two algorithms. -/
theorem accepted_unique (json2 : Json2) (hashes : KeyedHashes)
    (hinjective : ∀ secret alg, Function.Injective
      (fun message => hashes.signMessage message secret alg)) :
    (∀ secret alg t t', Accepted json2 hashes t secret alg → Accepted json2 hashes t' secret alg →
      (signaturePart t = signaturePart t' ↔ t = t')) ∧
    ∀ secret alg alg' t, Accepted json2 hashes t secret alg → Accepted json2 hashes t secret alg' →
      alg = alg' := by
  refine ⟨?_, ?_⟩
  · intro secret alg t t' h h'
    refine ⟨fun hsame => ?_, fun heq => congrArg signaturePart heq⟩
    obtain ⟨message, htoken, hsignature⟩ := h.token_eq
    obtain ⟨message', htoken', hsignature'⟩ := h'.token_eq
    rw [hsignature, hsignature'] at hsame
    have hmessage : message = message' :=
      hinjective secret alg (base64urlEncode_injective hsame)
    rw [htoken, htoken', hsignature, hsignature', hmessage]
  · rintro secret alg alg' t ⟨result, h⟩ ⟨result', h'⟩
    obtain ⟨-, header, payload, hsplit, halg, -⟩ := verifyJwt_eq_ok.mp h
    obtain ⟨-, header', payload', hsplit', halg', -⟩ := verifyJwt_eq_ok.mp h'
    rw [hsplit] at hsplit'
    obtain ⟨rfl, -⟩ := List.cons.inj hsplit'
    exact Option.some.inj (halg.symm.trans halg')

/-- Hashes that are the message, and conversions that give nothing. -/
def plainHashes : KeyedHashes := ⟨fun message _ => message, fun message _ => message,
  fun message _ => message⟩

def plainJson2 : Json2 := ⟨fun _ => [], fun _ => [], fun _ => 0⟩

/-- A token with a header and an empty payload. -/
def plainToken (payloadJson : ByteString) : ByteString :=
  let message := base64urlEncode (ascii "\x7b\"alg\":\"HS256\"\x7d") ++ ascii "." ++
    base64urlEncode payloadJson
  message ++ ascii "." ++ base64urlEncode message

/-- The tokens of `{}` and of `{ }` are accepted, and have different signatures. -/
theorem accepted_unique_plain :
    signaturePart (plainToken (ascii "\x7b\x7d")) ≠ signaturePart (plainToken (ascii "\x7b \x7d")) := by
  have hinjective : ∀ secret alg, Function.Injective
      (fun message => plainHashes.signMessage message secret alg) := by
    intro secret alg message message' h
    cases alg <;> exact h
  intro h
  have heq := ((accepted_unique plainJson2 plainHashes hinjective).1 (ascii "k") .hs256
    (plainToken (ascii "\x7b\x7d")) (plainToken (ascii "\x7b \x7d")) (by decide +kernel)
    (by decide +kernel)).mp h
  exact absurd heq (by decide +kernel)

end VHono
