import VHono.HashSeparation
import VHono.SignedHeaders

/-! # What a signature covers

    The header that the storage sends is the one that the service computes
    exactly if the host that is signed is that of the URL, the bytes of the
    bucket and the key stay as they are in a path, no parameter has a space,
    the headers are covered, and the clock shows one time at both readings. -/

namespace VHono

open ByteString AwsSignature

/-! ## Fields that are sent -/

theorem find?_eq_get? {κ α : Type} [DecidableEq κ] (m : InsertionMap κ α) (k : κ) :
    (m.entries.find? (fun e => e.1 = k)).map Prod.snd = m.get? k := by
  rw [InsertionMap.get?]
  induction m.entries with
  | nil => rfl
  | cons e es ih =>
      obtain ⟨k', v⟩ := e
      by_cases hk : k' = k
      · rw [List.find?_cons_of_pos (by simp [hk]), hk, List.lookup_cons_self]
        rfl
      · rw [List.find?_cons_of_neg (by simp [hk]), List.lookup_cons,
          beq_eq_false_iff_ne.mpr (fun h => hk h.symm)]
        exact ih

/-- What is sent under a name that the library accepts. -/
theorem find?_addAll (m : InsertionMap ByteString ByteString) {name : ByteString}
    (hname : Header.validName name = true) :
    ((Header.addAll [] m.entries).find? (fun f => f.1 = name)).map Prod.snd = m.get? name := by
  rw [Header.addAll_eq_filter, List.nil_append, List.find?_filter, ← find?_eq_get?]
  refine congrArg (fun p => (m.entries.find? p).map Prod.snd) (funext fun e => ?_)
  rw [decide_eq_decide, decide_eq_true_iff]
  exact and_iff_right_of_imp (fun h => h ▸ hname)

/-- Keys that are all different pick one entry each. -/
theorem find?_filter_of_nodup {α β : Type} [DecidableEq β] {f : α → β} {es : List α}
    (h : (es.map f).Nodup) {e : α} (he : e ∈ es) :
    es.find? (fun a => f a = f e) = some e ∧ es.filter (fun a => f a = f e) = [e] := by
  induction es with
  | nil => cases he
  | cons a es ih =>
      obtain ⟨hnotin, hrest⟩ := List.nodup_cons.mp h
      rcases List.mem_cons.mp he with rfl | hmem
      · refine ⟨List.find?_cons_of_pos (by simp), ?_⟩
        rw [List.filter_cons_of_pos (by simp), List.filter_eq_nil_iff.mpr]
        intro b hb heq
        exact hnotin (of_decide_eq_true heq ▸ List.mem_map_of_mem hb)
      · have hne : f a ≠ f e := fun heq => hnotin (heq ▸ List.mem_map_of_mem hmem)
        rw [List.find?_cons_of_neg (by simp [hne]), List.filter_cons_of_neg (by simp [hne])]
        exact ih hrest hmem

/-! ## The two canonical requests -/

/-- The names of some fields in lower case, each once. -/
def namesOf (fields : Header) : List ByteString :=
  sortStrings (fields.map (fun f => toLower f.1)).dedup

/-- The line of a name for the service. -/
def awsLine (host : ByteString) (fields : Header) (name : ByteString) : ByteString :=
  name ++ ascii ":"
    ++ (if name = ascii "host" then trimSpace host
        else joinStrings (byte ',') ((fields.filter (fun f => toLower f.1 = name)).map
          (fun f => trimSpace f.2)))
    ++ ascii "\n"

namespace S3Storage

variable (s : S3Storage) (now : UtcTime) (method : HttpMethod) (bucket key : ByteString)
  (params extra : InsertionMap ByteString ByteString) (hash : ByteString)

/-- The headers to sign of the storage. -/
def ownHeaders : InsertionMap ByteString ByteString := signedMap s.config.endpoint now extra hash

/-- The request that is signed, for what is written as the hash of the payload. -/
def codeRequest : ByteString :=
  requestText method.str (s.getUriPath bucket key) (buildCanonicalQueryString params)
    ((headerNames (s.ownHeaders now extra hash)).flatMap
      (canonicalHeader (s.ownHeaders now extra hash)))
    (getSignedHeaders (s.ownHeaders now extra hash)) hash

/-- The request that the service signs. -/
def awsRequest : ByteString :=
  requestText method.str (encodePath (s.urlPath bucket key)) (canonicalQuery params)
    ((namesOf ((s.ownHeaders now extra hash).entries.filter isSigned)).flatMap
      (awsLine (s.getHost bucket) ((s.ownHeaders now extra hash).entries.filter isSigned)))
    (joinStrings (byte ';') (namesOf ((s.ownHeaders now extra hash).entries.filter isSigned))) hash

end S3Storage

/-- The parts of a request that are written in one way by the code and by the service. -/
structure PlainRequest (config : S3Config) (bucket key : ByteString)
    (params : InsertionMap ByteString ByteString) : Prop where
  host  : config.pathStyle = true ∨ bucket = []
  path  : ∀ b ∈ bucket ++ key, isPathByte b = true
  query : Spaceless params

section Requests

variable {s : S3Storage} {now : UtcTime} {method : HttpMethod} {bucket key : ByteString}
  {params extra : InsertionMap ByteString ByteString} {hash : ByteString}

theorem getUriPath_eq (s : S3Storage) (bucket key : ByteString) :
    s.getUriPath bucket key = s.urlPath bucket key := by
  rw [S3Storage.getUriPath, S3Storage.urlPath]
  cases s.config.pathStyle <;> cases key <;> rfl

theorem countP_urlPath (hhost : s.config.pathStyle = true ∨ bucket = []) :
    (s.urlPath bucket key).countP (fun b => !isPathByte b)
      = (bucket ++ key).countP (fun b => !isPathByte b) := by
  have hslash : ∀ t : ByteString, (ascii "/" ++ t).countP (fun b => !isPathByte b)
      = t.countP (fun b => !isPathByte b) := by
    intro t
    rw [List.countP_append]
    exact Nat.zero_add _
  have hnil : (ascii "/").countP (fun b => !isPathByte b) = 0 := rfl
  have hpath : ∀ t : ByteString, (if t ≠ [] then ascii "/" ++ t else []).countP
      (fun b => !isPathByte b) = t.countP (fun b => !isPathByte b) := by
    intro t
    split
    · exact hslash t
    · rename_i ht
      rw [not_not.mp ht]
  have hroot : ∀ t : ByteString, (if t = [] then ascii "/" else t).countP (fun b => !isPathByte b)
      = t.countP (fun b => !isPathByte b) := by
    intro t
    split
    · rename_i ht
      rw [ht]
      exact hnil
    · rfl
  rw [S3Storage.urlPath, hroot, List.countP_append]
  by_cases hstyle : s.config.pathStyle = true
  · rw [if_pos hstyle, List.countP_append, hpath, hpath]
  · rw [if_neg hstyle, hpath, hhost.resolve_left hstyle]
    exact (Nat.zero_add _).symm

/-- The value of a name of the signing headers. -/
theorem mem_ownHeaders_host :
    (ascii "Host", s.config.endpoint) ∈ (s.ownHeaders now extra hash).entries := by
  refine InsertionMap.mem_entries_of_get? ?_
  rw [S3Storage.ownHeaders, signedMap, InsertionMap.get?_insert_ne _ _ (by decide),
    InsertionMap.get?_insert_ne _ _ (by decide), InsertionMap.get?_insert_self]

section Lines

variable (hcovered : HeadersCovered extra)

include hcovered in
theorem filter_ownHeaders : (s.ownHeaders now extra hash).entries.filter isSigned
    = (s.ownHeaders now extra hash).entries :=
  List.filter_eq_self.mpr (headersCovered_iff.mp hcovered).1

include hcovered in
theorem namesOf_ownHeaders : namesOf (s.ownHeaders now extra hash).entries
    = S3Storage.headerNames (s.ownHeaders now extra hash) := by
  have hnodup : ((s.ownHeaders now extra hash).entries.map (fun e => toLower e.1)).Nodup :=
    (headersCovered_iff.mp hcovered).2
  rw [namesOf, hnodup.dedup, S3Storage.headerNames, InsertionMap.keys, List.map_map]
  rfl

include hcovered in
theorem codeLine_entry {e : ByteString × ByteString}
    (he : e ∈ (s.ownHeaders now extra hash).entries) :
    S3Storage.canonicalHeader (s.ownHeaders now extra hash) (toLower e.1)
      = S3Storage.headerLine (toLower e.1) e.2 := by
  have hnodup : ((s.ownHeaders now extra hash).entries.map (fun e => toLower e.1)).Nodup :=
    (headersCovered_iff.mp hcovered).2
  rw [S3Storage.canonicalHeader, (find?_filter_of_nodup hnodup he).1]

include hcovered in
theorem awsLine_entry {e : ByteString × ByteString}
    (he : e ∈ (s.ownHeaders now extra hash).entries) (hhost : toLower e.1 ≠ ascii "host") :
    awsLine (s.getHost bucket) (s.ownHeaders now extra hash).entries (toLower e.1)
      = S3Storage.headerLine (toLower e.1) e.2 := by
  have hnodup : ((s.ownHeaders now extra hash).entries.map (fun e => toLower e.1)).Nodup :=
    (headersCovered_iff.mp hcovered).2
  rw [awsLine, if_neg hhost, (find?_filter_of_nodup hnodup he).2, List.map_singleton, joinStrings,
    List.intercalate_singleton, S3Storage.headerLine]

include hcovered in
theorem codeLine_host : S3Storage.canonicalHeader (s.ownHeaders now extra hash) (ascii "host")
    = S3Storage.headerLine (ascii "host") s.config.endpoint := by
  have hmem : (ascii "Host", s.config.endpoint) ∈ (s.ownHeaders now extra hash).entries :=
    mem_ownHeaders_host
  have hname : toLower (ascii "Host") = ascii "host" := by decide
  have hline := codeLine_entry hcovered hmem
  rwa [hname] at hline

theorem awsLine_host (fields : Header) : awsLine (s.getHost bucket) fields (ascii "host")
    = S3Storage.headerLine (ascii "host") (s.getHost bucket) := by
  rw [awsLine, if_pos rfl, S3Storage.headerLine]

theorem mem_headerNames {headers : InsertionMap ByteString ByteString} {name : ByteString} :
    name ∈ S3Storage.headerNames headers ↔ ∃ e ∈ headers.entries, toLower e.1 = name := by
  rw [S3Storage.headerNames, (sortStrings_perm _).mem_iff, InsertionMap.keys, List.map_map,
    List.mem_map]
  rfl

include hcovered in
/-- A line of the code, but for that of the host, is the one of the service. -/
theorem headerLines_eq {name : ByteString}
    (hname : name ∈ S3Storage.headerNames (s.ownHeaders now extra hash))
    (hhost : name ≠ ascii "host") :
    S3Storage.canonicalHeader (s.ownHeaders now extra hash) name
      = awsLine (s.getHost bucket) (s.ownHeaders now extra hash).entries name := by
  obtain ⟨e, he, rfl⟩ := mem_headerNames.mp hname
  exact (codeLine_entry hcovered he).trans (awsLine_entry hcovered he hhost).symm

end Lines

theorem length_requestText (a b c d e f : ByteString) :
    (S3Storage.requestText a b c d e f).length
      = a.length + b.length + c.length + d.length + e.length + f.length + 5 := by
  rw [S3Storage.requestText]
  simp only [List.length_append]
  have hline : (ascii "\n").length = 1 := rfl
  omega

/-- Where the headers are covered and the request is plain, the two requests are one. -/
theorem requests_eq (hcovered : HeadersCovered extra)
    (hplain : PlainRequest s.config bucket key params) :
    s.codeRequest now method bucket key params extra hash
      = s.awsRequest now method bucket key params extra hash := by
  have hhost : s.getHost bucket = s.config.endpoint := by
    rw [S3Storage.getHost, if_pos hplain.host]
  have hpath : encodePath (s.urlPath bucket key) = s.urlPath bucket key := by
    refine encodePath_of_plain (fun b hb => ?_)
    have hzero : (s.urlPath bucket key).countP (fun b => !isPathByte b) = 0 := by
      rw [countP_urlPath hplain.host, List.countP_eq_zero]
      intro b hb
      rw [hplain.path b hb]
      decide
    simpa using List.countP_eq_zero.mp hzero b hb
  have hlines : (S3Storage.headerNames (s.ownHeaders now extra hash)).flatMap
        (S3Storage.canonicalHeader (s.ownHeaders now extra hash))
      = (S3Storage.headerNames (s.ownHeaders now extra hash)).flatMap
        (awsLine (s.getHost bucket) (s.ownHeaders now extra hash).entries) := by
    refine List.flatMap_congr (fun name hname => ?_)
    by_cases hname' : name = ascii "host"
    · rw [hname', codeLine_host hcovered, awsLine_host, hhost]
    · exact headerLines_eq hcovered hname hname'
  rw [S3Storage.codeRequest, S3Storage.awsRequest, filter_ownHeaders hcovered,
    namesOf_ownHeaders hcovered, hlines, getUriPath_eq, hpath, query_eq hplain.query]
  rfl

theorem length_headerLine (name value : ByteString) :
    (S3Storage.headerLine name value).length = name.length + (trimSpace value).length + 2 := by
  rw [S3Storage.headerLine, List.length_append, List.length_append, List.length_append]
  have hcolon : (ascii ":").length = 1 ∧ (ascii "\n").length = 1 := ⟨rfl, rfl⟩
  omega

theorem length_host (hcovered : HeadersCovered extra)
    (h : ¬(s.config.pathStyle = true ∨ bucket = [])) :
    (S3Storage.canonicalHeader (s.ownHeaders now extra hash) (ascii "host")).length
      < (awsLine (s.getHost bucket) (s.ownHeaders now extra hash).entries
          (ascii "host")).length := by
  have hlonger := length_trimSpace_dot bucket s.config.endpoint
  rw [codeLine_host hcovered, awsLine_host, length_headerLine, length_headerLine,
    S3Storage.getHost, if_neg h]
  omega

variable (s now bucket hash) in
/-- The lines of the service are the longer ones, by the bucket in its host. -/
theorem length_lines (hcovered : HeadersCovered extra) :
    ((S3Storage.headerNames (s.ownHeaders now extra hash)).flatMap
        (S3Storage.canonicalHeader (s.ownHeaders now extra hash))).length
      ≤ ((S3Storage.headerNames (s.ownHeaders now extra hash)).flatMap
        (awsLine (s.getHost bucket) (s.ownHeaders now extra hash).entries)).length ∧
    (((S3Storage.headerNames (s.ownHeaders now extra hash)).flatMap
        (awsLine (s.getHost bucket) (s.ownHeaders now extra hash).entries)).length
      ≤ ((S3Storage.headerNames (s.ownHeaders now extra hash)).flatMap
        (S3Storage.canonicalHeader (s.ownHeaders now extra hash))).length →
      s.config.pathStyle = true ∨ bucket = []) := by
  have hmem : ascii "host" ∈ S3Storage.headerNames (s.ownHeaders now extra hash) :=
    mem_headerNames.mpr ⟨_, mem_ownHeaders_host,
      (by decide : toLower (ascii "Host") = ascii "host")⟩
  have hle : ∀ name ∈ S3Storage.headerNames (s.ownHeaders now extra hash),
      (S3Storage.canonicalHeader (s.ownHeaders now extra hash) name).length
        ≤ (awsLine (s.getHost bucket) (s.ownHeaders now extra hash).entries name).length := by
    intro name hname
    by_cases hhost : name = ascii "host"
    · by_cases hbucket : s.config.pathStyle = true ∨ bucket = []
      · rw [hhost, codeLine_host hcovered, awsLine_host, S3Storage.getHost, if_pos hbucket]
      · rw [hhost]
        exact Nat.le_of_lt (length_host hcovered hbucket)
    · rw [headerLines_eq hcovered hname hhost]
  rw [List.length_flatMap, List.length_flatMap]
  refine ⟨List.sum_le_sum hle, fun hlonger => ?_⟩
  by_contra hbucket
  exact absurd (List.sum_lt_sum _ _ hle ⟨_, hmem, length_host hcovered hbucket⟩)
    (Nat.not_lt.mpr hlonger)

/-- A request that is not plain is longer for the service. -/
theorem plainRequest_of_length (hcovered : HeadersCovered extra)
    (h : (s.awsRequest now method bucket key params extra hash).length
      ≤ (s.codeRequest now method bucket key params extra hash).length) :
    PlainRequest s.config bucket key params := by
  rw [S3Storage.codeRequest, S3Storage.awsRequest, filter_ownHeaders hcovered,
    namesOf_ownHeaders hcovered, length_requestText, length_requestText, getUriPath_eq,
    length_encodePath] at h
  obtain ⟨hlines, hhost⟩ := length_lines s now bucket hash hcovered
  obtain ⟨hquery, hspaceless⟩ := length_query params
  rw [S3Storage.getSignedHeaders] at h
  have hstyle := hhost (by omega)
  refine ⟨hstyle, fun b hb => ?_, hspaceless (by omega)⟩
  have hzero : (bucket ++ key).countP (fun b => !isPathByte b) = 0 := by
    rw [← countP_urlPath hstyle]
    omega
  simpa using List.countP_eq_zero.mp hzero b hb

theorem startsUpper_requestText (method : HttpMethod) (a b c d e : ByteString) :
    StartsUpper (S3Storage.requestText method.str a b c d e) := by
  cases method <;> exact ⟨_, _, rfl, by decide, by decide⟩

theorem suffix_requestText (a b c d e f : ByteString) :
    f <:+ S3Storage.requestText a b c d e f := List.suffix_append _ _

end Requests

/-! ## The two headers -/

namespace S3Storage

/-- What the hash of a request is put behind. -/
def textToSign (s : S3Storage) (now : UtcTime) : ByteString :=
  ascii "AWS4-HMAC-SHA256" ++ ascii "\n" ++ now.datetimeStamp ++ ascii "\n"
    ++ s.credentialScope now.date ++ ascii "\n"

/-- The signature of a request, at a time. -/
def signatureOf (s : S3Storage) (now : UtcTime) (request : ByteString) : ByteString :=
  LocalStorage.hexStr (s3HmacSha256 s.sha256 (s.getSigningKey now.date)
    (s.textToSign now ++ LocalStorage.hexStr (s.sha256 request).val))

end S3Storage

theorem hashPayload_eq {s : S3Storage} (h : KnowsEmpty s.sha256) (payload : ByteString) :
    s.hashPayload payload = payloadHex s.sha256 payload := by
  rw [S3Storage.hashPayload]
  split
  · rename_i hnil
    rw [hnil]
    exact h.symm
  · rfl

section Authorizations

variable (s : S3Storage) (now now' : UtcTime) (method : HttpMethod) (bucket key : ByteString)
  (params extra : InsertionMap ByteString ByteString) (payload : ByteString)

theorem headersToSign_eq : s.headersToSign now extra payload
    = s.ownHeaders now extra (s.hashPayload payload) := by
  have hhost : s.getHost [] = s.config.endpoint := if_pos (.inr rfl)
  rw [S3Storage.headersToSign, hhost]
  rfl

/-- What the storage sends. -/
theorem authorization_doRequest (h : KnowsEmpty s.sha256) :
    (s.doRequest now now' method bucket key params extra payload).authorization
      = some (s.authorizationText now'.date
          (S3Storage.getSignedHeaders (s.ownHeaders now extra (payloadHex s.sha256 payload)))
          (s.signatureOf now' (s.codeRequest now method bucket key params extra
            (payloadHex s.sha256 payload)))) := by
  have hname : Header.validName (ascii "Authorization") = true := by decide +kernel
  rw [S3Request.authorization, S3Storage.doRequest, S3Storage.signRequest]
  refine (find?_addAll _ hname).trans ((InsertionMap.get?_insert_self _ _ _).trans ?_)
  rw [headersToSign_eq, ← hashPayload_eq h]
  rfl

/-- What the service computes of it. -/
theorem authorization_aws (h : KnowsEmpty s.sha256) :
    AwsSignature.authorization s.config s.sha256 (s.requestUrl bucket key params)
        (s.doRequest now now' method bucket key params extra payload)
      = s.authorizationText now.date
          (joinStrings (byte ';') (namesOf ((s.ownHeaders now extra
            (payloadHex s.sha256 payload)).entries.filter isSigned)))
          (s.signatureOf now (s.awsRequest now method bucket key params extra
            (payloadHex s.sha256 payload))) := by
  obtain ⟨signature, hheader⟩ : ∃ signature,
      (s.doRequest now now' method bucket key params extra payload).header
        = Header.addAll [] ((s.ownHeaders now extra (s.hashPayload payload)).insert
            (ascii "Authorization") signature).entries := by
    rw [← headersToSign_eq]
    exact ⟨_, rfl⟩
  have htime : requestTime (s.doRequest now now' method bucket key params extra payload)
      = now.datetimeStamp := by
    have hname : Header.validName (ascii "x-amz-date") = true := by decide +kernel
    rw [requestTime, hheader, find?_addAll _ hname, InsertionMap.get?_insert_ne _ _ (by decide),
      S3Storage.ownHeaders, signedMap, InsertionMap.get?_insert_ne _ _ (by decide),
      InsertionMap.get?_insert_self, Option.getD_some]
  have hdate : now.datetimeStamp.take 8 = now.date := by
    rw [UtcTime.datetimeStamp, List.append_assoc, List.append_assoc]
    exact List.take_left' now.date_length
  have hmac : ∀ x data, mac s.sha256 x data = s3HmacSha256 s.sha256 x data :=
    fun x data => (storageHmac_eq _ (by decide) _ _).symm
  have hkey : signingKey s.config s.sha256 now.date = s.getSigningKey now.date := by
    rw [signingKey, hmac, hmac, hmac, hmac]
    rfl
  have hfields : signedFields (s.doRequest now now' method bucket key params extra payload).header
      = (s.ownHeaders now extra (s.hashPayload payload)).entries.filter isSigned := by
    rw [hheader]
    exact signedFields_sent signature
  have hrequest : canonicalRequest s.sha256 (s.requestUrl bucket key params)
        (s.doRequest now now' method bucket key params extra payload)
      = s.awsRequest now method bucket key params extra (payloadHex s.sha256 payload) := by
    have hlines : ∀ name, name ++ ascii ":"
        ++ fieldValue (s.getHost bucket)
            (s.doRequest now now' method bucket key params extra payload).header name ++ ascii "\n"
        = awsLine (s.getHost bucket)
            ((s.ownHeaders now extra (s.hashPayload payload)).entries.filter isSigned) name := by
      intro name
      rw [fieldValue, hfields, awsLine]
    rw [canonicalRequest, fieldNames, hfields, S3Storage.awsRequest, ← hashPayload_eq h]
    refine congrArg₂ (fun lines hash => S3Storage.requestText method.str
      (encodePath (s.urlPath bucket key)) (canonicalQuery params) lines _ hash)
      (List.flatMap_congr (fun name _ => hlines name)) (hashPayload_eq h payload).symm
  rw [AwsSignature.authorization, htime, hdate, hkey, hmac, hrequest, fieldNames, hfields,
    hashPayload_eq h]
  rfl

end Authorizations

/-! ## Equal headers -/

theorem headersCovered_of_signed {s : S3Storage} {now : UtcTime}
    {extra : InsertionMap ByteString ByteString} {hash : ByteString}
    (h : S3Storage.getSignedHeaders (s.ownHeaders now extra hash)
      = joinStrings (byte ';') (namesOf ((s.ownHeaders now extra hash).entries.filter isSigned))) :
    HeadersCovered extra := by
  have hfields : signedFields ((s.ownHeaders now extra hash).entries.filter isSigned)
      = (s.ownHeaders now extra hash).entries.filter isSigned := by
    rw [signedFields, List.filter_filter]
    refine List.filter_congr (fun f _ => ?_)
    rw [isSigned, Bool.and_left_comm, Bool.and_self]
  rw [namesOf, ← hfields] at h
  exact headersCovered_of_names hfields h

theorem length_hexStr (bytes : ByteString) : (LocalStorage.hexStr bytes).length = 2 * bytes.length := by
  induction bytes with
  | nil => rfl
  | cons b bytes ih =>
      rw [LocalStorage.hexStr] at ih
      rw [LocalStorage.hexStr, List.flatMap_cons, List.length_append, ih, List.length_cons]
      show 2 + _ = _
      omega

theorem length_signatureOf (s : S3Storage) (now : UtcTime) (request : ByteString) :
    (s.signatureOf now request).length = 64 := by
  rw [S3Storage.signatureOf, length_hexStr]
  exact congrArg (2 * ·) (s.sha256 _).property

theorem authorizationText_inj {s : S3Storage} {date date' names names' g g' : ByteString}
    (hdate : date.length = date'.length) (hlength : g.length = g'.length)
    (h : s.authorizationText date names g = s.authorizationText date' names' g') :
    date = date' ∧ names = names' ∧ g = g' := by
  obtain ⟨hfront, hsignature⟩ := List.append_inj' h hlength
  have hnames := List.append_cancel_right hfront
  simp only [S3Storage.credentialScope, List.append_assoc, List.append_cancel_left_eq] at hnames
  obtain ⟨hsame, hrest⟩ := List.append_inj hnames hdate
  simp only [List.append_cancel_left_eq] at hrest
  exact ⟨hsame, hrest, hsignature⟩

theorem UtcTime.datetimeStamp_inj {now now' : UtcTime} (h : now.datetimeStamp = now'.datetimeStamp) :
    now = now' := by
  rw [datetimeStamp, datetimeStamp, List.append_cancel_right_eq, List.append_assoc,
    List.append_assoc] at h
  obtain ⟨hdate, hrest⟩ := List.append_inj h (now.date_length.trans now'.date_length.symm)
  cases now
  cases now'
  cases hdate
  cases List.append_cancel_left hrest
  rfl

theorem length_datetimeStamp (now : UtcTime) : now.datetimeStamp.length = 16 := by
  rw [UtcTime.datetimeStamp, List.length_append, List.length_append, List.length_append,
    now.date_length, now.time_length]
  rfl

theorem textToSign_inj {s : S3Storage} {now now' : UtcTime}
    (h : s.textToSign now = s.textToSign now') : now = now' := by
  simp only [S3Storage.textToSign, List.append_assoc, List.append_cancel_left_eq] at h
  exact UtcTime.datetimeStamp_inj (List.append_inj h
    ((length_datetimeStamp now).trans (length_datetimeStamp now').symm)).1

theorem length_textToSign (s : S3Storage) (now now' : UtcTime) :
    (s.textToSign now).length = (s.textToSign now').length := by
  simp only [S3Storage.textToSign, S3Storage.credentialScope, List.length_append,
    length_datetimeStamp, UtcTime.date_length]

/-- A signing key is a sum. -/
theorem exists_signingKey (s : S3Storage) (date : ByteString) :
    ∃ x, s.getSigningKey date = (s.sha256 x).val := ⟨_, rfl⟩

/-- The signature covers the request that is sent. -/
structure SignatureCovers (config : S3Config) (bucket key : ByteString)
    (params extra : InsertionMap ByteString ByteString) (now now' : UtcTime) : Prop where
  plain   : PlainRequest config bucket key params
  headers : HeadersCovered extra
  time    : now = now'

/-- The header that is sent is the one that the service computes, for every hash function with the
    known sum of the empty text. -/
def SignedAsSent (config : S3Config) (now now' : UtcTime) (method : HttpMethod)
    (bucket key : ByteString) (params extra : InsertionMap ByteString ByteString)
    (payload : ByteString) : Prop :=
  ∀ sha256, KnowsEmpty sha256 →
    (S3Storage.doRequest ⟨config, sha256⟩ now now' method bucket key params extra
        payload).authorization
      = some (AwsSignature.authorization config sha256
          (S3Storage.requestUrl ⟨config, sha256⟩ bucket key params)
          (S3Storage.doRequest ⟨config, sha256⟩ now now' method bucket key params extra payload))

section Coverage

variable {config : S3Config} {now now' : UtcTime} {method : HttpMethod} {bucket key : ByteString}
  {params extra : InsertionMap ByteString ByteString} {payload : ByteString}

/-- Equal headers have equal parts. -/
theorem SignedAsSent.parts (h : SignedAsSent config now now' method bucket key params extra payload)
    {sha256 : HashSum 32} (hknows : KnowsEmpty sha256) :
    now'.date = now.date ∧ HeadersCovered extra ∧
      S3Storage.signatureOf ⟨config, sha256⟩ now' (S3Storage.codeRequest ⟨config, sha256⟩ now method
          bucket key params extra (payloadHex sha256 payload))
        = S3Storage.signatureOf ⟨config, sha256⟩ now (S3Storage.awsRequest ⟨config, sha256⟩ now
            method bucket key params extra (payloadHex sha256 payload)) := by
  have heq := h sha256 hknows
  rw [authorization_doRequest ⟨config, sha256⟩ _ _ _ _ _ _ _ _ hknows,
    authorization_aws ⟨config, sha256⟩ _ _ _ _ _ _ _ _ hknows] at heq
  obtain ⟨hdate, hnames, hsignature⟩ := authorizationText_inj
    (now'.date_length.trans now.date_length.symm)
    ((length_signatureOf _ _ _).trans (length_signatureOf _ _ _).symm) (Option.some.inj heq)
  refine ⟨hdate, headersCovered_of_signed hnames, hsignature⟩

theorem SignedAsSent.headers
    (h : SignedAsSent config now now' method bucket key params extra payload) :
    HeadersCovered extra := by
  have hknows : KnowsEmpty (fun _ => emptySum) := hexStr_emptySum
  exact (h.parts hknows).2.1

/-- Covered requests carry the header of the service. -/
theorem SignatureCovers.signedAsSent
    (h : SignatureCovers config bucket key params extra now now') :
    SignedAsSent config now now' method bucket key params extra payload := by
  intro sha256 hknows
  obtain ⟨hplain, hcovered, rfl⟩ := h
  rw [authorization_doRequest ⟨config, sha256⟩ _ _ _ _ _ _ _ _ hknows,
    authorization_aws ⟨config, sha256⟩ _ _ _ _ _ _ _ _ hknows, requests_eq hcovered hplain,
    filter_ownHeaders hcovered, namesOf_ownHeaders hcovered]
  rfl

/-- A request that is not plain has another signature at the service, for some hash function. -/
theorem SignedAsSent.plain
    (h : SignedAsSent config now now' method bucket key params extra payload) :
    PlainRequest config bucket key params := by
  by_contra hplain
  let s : S3Storage := ⟨config, fun _ => emptySum⟩
  have hcovered := h.headers
  have hne : ∀ hash, s.codeRequest now method bucket key params extra hash
      ≠ s.awsRequest now method bucket key params extra hash := by
    intro hash heq
    exact hplain (plainRequest_of_length (s := s) hcovered
      (Nat.le_of_eq (congrArg List.length heq).symm))
  obtain ⟨sha256, hknows, hdiffer⟩ := separate_requests
    (c := fun hash => s.codeRequest now method bucket key params extra hash)
    (fun hash => suffix_requestText _ _ _ _ _ _) (fun hash => suffix_requestText _ _ _ _ _ _)
    (fun hash => startsUpper_requestText _ _ _ _ _ _)
    (fun hash => startsUpper_requestText _ _ _ _ _ _) hne payload (s.textToSign now')
    (s.textToSign now)
  obtain ⟨hdate, -, hsignature⟩ := h.parts hknows
  obtain ⟨x, hx⟩ := exists_signingKey ⟨config, sha256⟩ now.date
  refine hdiffer x ?_
  rw [S3Storage.signatureOf, S3Storage.signatureOf, hdate, hx] at hsignature
  exact hsignature

/-- Two times make two signatures, for some hash function. -/
theorem SignedAsSent.time
    (h : SignedAsSent config now now' method bucket key params extra payload) : now = now' := by
  by_contra htime
  let s : S3Storage := ⟨config, fun _ => emptySum⟩
  have hcovered := h.headers
  have hne : s.textToSign now' ≠ s.textToSign now := fun heq => htime (textToSign_inj heq).symm
  obtain ⟨sha256, hknows, hdiffer⟩ := separate_texts
    (c := fun hash => s.codeRequest now method bucket key params extra hash)
    (fun hash => suffix_requestText _ _ _ _ _ _) (fun hash => startsUpper_requestText _ _ _ _ _ _)
    payload (length_textToSign s now' now) hne
  obtain ⟨hdate, -, hsignature⟩ := h.parts hknows
  obtain ⟨x, hx⟩ := exists_signingKey ⟨config, sha256⟩ now.date
  refine hdiffer x ?_
  rw [← requests_eq hcovered h.plain, S3Storage.signatureOf, S3Storage.signatureOf, hdate, hx]
    at hsignature
  exact hsignature

end Coverage

/-! ## A bucket in front of the host -/

/-- A storage that puts the bucket in front of the host. -/
def sampleS3 : S3Config where
  endpoint := ascii "s3.amazonaws.com"
  accessKey := ascii "AKIDEXAMPLE"
  secretKey := ascii "secret"
  pathStyle := false

def sampleTime : UtcTime where
  date := ascii "20240101"
  time := ascii "120000"
  date_length := rfl
  time_length := rfl

end VHono

/-! ## The instants of a signed request

    The clock is read when the date header is set, and once more when the
    request is signed.  The header says the time of the signature, and its
    date the one of the credential scope, exactly if both readings fall in one
    second. -/

namespace VHono

open ByteString

/-- The timestamp of a string to sign: its second line. -/
def timestampOf (stringToSign : ByteString) : ByteString := (stringToSign.drop 17).take 16

namespace S3Storage

variable (s : S3Storage)

/-- The date of the credential scope, which stands behind the access key. -/
def scopeDate (authorization : ByteString) : ByteString :=
  (authorization.drop (28 + s.config.accessKey.length + 1)).take 8

/-- The info that `sign_request` makes once the headers are set. -/
def finalInfo (now now' : UtcTime) (method uri : ByteString)
    (queryParams headers : InsertionMap ByteString ByteString) (payload : ByteString) :
    S3SigningInfo :=
  s.createSigningInfo now' method uri queryParams (s.headersToSign now headers payload) payload

/-- The string that `sign_request` signs. -/
def signedString (now now' : UtcTime) (method uri : ByteString)
    (queryParams headers : InsertionMap ByteString ByteString) (payload : ByteString) :
    ByteString :=
  let info := s.finalInfo now now' method uri queryParams headers payload
  s.buildStringToSign info (buildCanonicalRequest info)

/-- The date header is the timestamp of what is signed, and begins with the date of the scope. -/
structure UsesOneInstant (now now' : UtcTime) (method uri : ByteString)
    (queryParams headers : InsertionMap ByteString ByteString) (payload : ByteString) : Prop where
  timestamp : (s.signRequest now now' method uri queryParams headers payload).get?
    (ascii "x-amz-date")
      = some (timestampOf (s.signedString now now' method uri queryParams headers payload))
  scope     : ((s.signRequest now now' method uri queryParams headers payload).get?
    (ascii "x-amz-date")).map (List.take 8)
      = ((s.signRequest now now' method uri queryParams headers payload).get?
        (ascii "Authorization")).map s.scopeDate

variable {s} {now now' : UtcTime} {method uri payload : ByteString}
  {queryParams headers : InsertionMap ByteString ByteString}

theorem signRequest_eq : s.signRequest now now' method uri queryParams headers payload
    = (s.headersToSign now headers payload).insert (ascii "Authorization")
        (s.buildAuthorizationHeader (s.finalInfo now now' method uri queryParams headers payload)
          (s.calculateSignature (s.finalInfo now now' method uri queryParams headers payload)
            (s.signedString now now' method uri queryParams headers payload))) := rfl

/-- The date header is of the first reading. -/
theorem date_signRequest : (s.signRequest now now' method uri queryParams headers payload).get?
    (ascii "x-amz-date") = some now.datetimeStamp := by
  have hauthorization : ascii "x-amz-date" ≠ ascii "Authorization" := by decide +kernel
  have hhash : ascii "x-amz-date" ≠ ascii "x-amz-content-sha256" := by decide +kernel
  rw [signRequest_eq, InsertionMap.get?_insert_ne _ _ hauthorization, headersToSign,
    InsertionMap.get?_insert_ne _ _ hhash, InsertionMap.get?_insert_self]

/-- What is signed is of the second reading. -/
theorem timestampOf_signedString :
    timestampOf (s.signedString now now' method uri queryParams headers payload)
      = now'.datetimeStamp := by
  have hstamp := length_datetimeStamp now'
  have hlead : (ascii "AWS4-HMAC-SHA256" ++ ascii "\n").length = 17 := by decide +kernel
  rw [timestampOf, signedString, buildStringToSign, List.append_assoc, List.append_assoc,
    List.append_assoc, List.append_assoc, List.drop_left' hlead]
  exact List.take_left' hstamp

/-- So is the scope. -/
theorem scopeDate_authorizationText (signedHeaders signature : ByteString) :
    s.scopeDate (s.authorizationText now'.date signedHeaders signature) = now'.date := by
  have hlead : (ascii "AWS4-HMAC-SHA256" ++ ascii " Credential=" ++ s.config.accessKey
      ++ ascii "/").length = 28 + s.config.accessKey.length + 1 := by
    have hname : (ascii "AWS4-HMAC-SHA256" ++ ascii " Credential=").length = 28 := by
      decide +kernel
    rw [List.length_append, List.length_append, hname]
    rfl
  have htext : s.authorizationText now'.date signedHeaders signature
      = (ascii "AWS4-HMAC-SHA256" ++ ascii " Credential=" ++ s.config.accessKey ++ ascii "/")
        ++ (now'.date ++ (ascii "/" ++ s.config.region ++ ascii "/s3/aws4_request"
          ++ ascii ", SignedHeaders=" ++ signedHeaders ++ ascii ", Signature=" ++ signature)) := by
    simp only [authorizationText, credentialScope, List.append_assoc]
  rw [scopeDate, htext, List.drop_left' hlead]
  exact List.take_left' now'.date_length

theorem scopeDate_signRequest :
    ((s.signRequest now now' method uri queryParams headers payload).get?
      (ascii "Authorization")).map s.scopeDate = some now'.date := by
  rw [signRequest_eq, InsertionMap.get?_insert_self, Option.map_some]
  exact congrArg some (scopeDate_authorizationText _ _)

/-- **ONE INSTANT**: the headers agree with what is signed exactly if both readings of the clock
    fall in the same second. -/
theorem usesOneInstant_iff (s : S3Storage) (now now' : UtcTime) (method uri : ByteString)
    (queryParams headers : InsertionMap ByteString ByteString) (payload : ByteString) :
    s.UsesOneInstant now now' method uri queryParams headers payload ↔ now = now' := by
  constructor
  · intro h
    have hstamp := h.timestamp
    rw [date_signRequest, timestampOf_signedString] at hstamp
    exact UtcTime.datetimeStamp_inj (Option.some.inj hstamp)
  · rintro rfl
    refine ⟨?_, ?_⟩
    · rw [date_signRequest, timestampOf_signedString]
    · rw [date_signRequest, scopeDate_signRequest, Option.map_some, UtcTime.datetimeStamp,
        List.append_assoc, List.append_assoc]
      exact congrArg some (List.take_left' now.date_length)

/-- The last second of a day. -/
def beforeMidnight : UtcTime where
  date := ascii "20240101"
  time := ascii "235959"
  date_length := rfl
  time_length := rfl

/-- The second after it. -/
def midnight : UtcTime where
  date := ascii "20240102"
  time := ascii "000000"
  date_length := rfl
  time_length := rfl

/-- A request that is begun in the last second of a day and signed in the next one. -/
theorem signed_after_midnight :
    precedes beforeMidnight.datetimeStamp midnight.datetimeStamp = true ∧
      ¬ (⟨sampleS3, fun _ => emptySum⟩ : S3Storage).UsesOneInstant beforeMidnight midnight
        HttpMethod.get.str (ascii "/photos/a.txt") .empty .empty [] := by
  refine ⟨by decide +kernel, fun h => ?_⟩
  -- of the headers only the date is looked at, which is that of the first reading
  have hstamp := h.timestamp
  rw [date_signRequest, timestampOf_signedString] at hstamp
  exact absurd (Option.some.inj hstamp) (by decide +kernel)

end S3Storage

end VHono
