import VHono.Base64
import VHono.CanonicalTexts

/-! # Signed requests of the Aliyun storage

    What is signed ends with the resource: the path of the object and those
    parameters of the query that are sub-resources.  They are taken in the
    order of a list, where the service takes them in the order of their names;
    the two agree exactly if the list has the ones of the query in that order. -/

namespace VHono

open ByteString

structure AliyunOSS where
  config : AliyunOSSConfig
  sha1   : HashSum 20

structure OSSSigningInfo where
  method                  : ByteString
  contentMd5              : ByteString
  contentType             : ByteString
  date                    : ByteString
  canonicalizedOssHeaders : ByteString
  canonicalizedResource   : ByteString

namespace AliyunOSS

def buildCanonicalizedOssHeaders (headers : InsertionMap ByteString ByteString) : ByteString :=
  let ossHeaders := headers.entries.foldl
    (fun ossHeaders e =>
      if startsWith (toLower e.1) (ascii "x-oss-") then
        ossHeaders.insert (toLower e.1) (trimSpace e.2)
      else ossHeaders) (InsertionMap.empty : InsertionMap ByteString ByteString)
  (sortStrings ossHeaders.keys).flatMap (fun key =>
    key ++ ascii ":" ++ (ossHeaders.get? key).getD [] ++ ascii "\n")

/-- The bucket and the key, before the sub-resources. -/
def resourcePath (bucket key : ByteString) : ByteString :=
  let resource := if bucket ≠ [] then ascii "/" ++ bucket else []
  if key ≠ [] then resource ++ (ascii "/" ++ key)
  else if bucket ≠ [] then resource ++ ascii "/"
  else ascii "/"

/-- The parameters that are signed, as they are listed. -/
def subResources : List ByteString :=
  [ascii "acl", ascii "uploads", ascii "location", ascii "cors", ascii "logging", ascii "website",
    ascii "referer", ascii "lifecycle", ascii "delete", ascii "append", ascii "tagging",
    ascii "objectMeta", ascii "uploadId", ascii "partNumber", ascii "security-token",
    ascii "position", ascii "img", ascii "style", ascii "styleName", ascii "replication",
    ascii "replicationProgress", ascii "replicationLocation", ascii "cname", ascii "bucketInfo",
    ascii "comp", ascii "qos", ascii "live", ascii "status", ascii "vod", ascii "startTime",
    ascii "endTime", ascii "symlink", ascii "x-oss-process", ascii "response-content-type",
    ascii "response-content-language", ascii "response-expires", ascii "response-cache-control",
    ascii "response-content-disposition", ascii "response-content-encoding"]

/-- `name` or `name=value` -/
def paramText (param value : ByteString) : ByteString :=
  if value ≠ [] then param ++ ascii "=" ++ value else param

/-- The path with the sub-resources behind it. -/
def appendParams (resource : ByteString) (subParams : List ByteString) : ByteString :=
  if subParams.length > 0 then resource ++ (ascii "?" ++ joinStrings (byte '&') subParams)
  else resource

def buildCanonicalizedResource (bucket key : ByteString)
    (queryParams : InsertionMap ByteString ByteString) : ByteString :=
  appendParams (resourcePath bucket key) (subResources.filterMap (fun param =>
    (queryParams.get? param).map (paramText param)))

def createSigningInfo (method bucket key : ByteString)
    (headers queryParams : InsertionMap ByteString ByteString) : OSSSigningInfo where
  method := method
  contentMd5 := (headers.get? (ascii "Content-MD5")).getD []
  contentType := (headers.get? (ascii "Content-Type")).getD []
  date := (headers.get? (ascii "Date")).getD []
  canonicalizedOssHeaders := buildCanonicalizedOssHeaders headers
  canonicalizedResource := buildCanonicalizedResource bucket key queryParams

def buildStringToSign (info : OSSSigningInfo) : ByteString :=
  let lead := info.method ++ ascii "\n" ++ info.contentMd5 ++ ascii "\n" ++ info.contentType
    ++ ascii "\n" ++ info.date ++ ascii "\n"
  if info.canonicalizedOssHeaders ≠ [] then
    lead ++ info.canonicalizedOssHeaders ++ info.canonicalizedResource
  else lead ++ info.canonicalizedResource

def calculateSignature (o : AliyunOSS) (stringToSign : ByteString) : ByteString :=
  Base64.encode (ossHmacSha1 o.sha1 o.config.accessKeySecret stringToSign)

/-- The headers that `sign_request` returns, at a formatted date. -/
def signRequest (o : AliyunOSS) (date method bucket key : ByteString)
    (headers queryParams : InsertionMap ByteString ByteString) :
    InsertionMap ByteString ByteString :=
  let headers := headers.insert (ascii "Date") date
  let stringToSign := buildStringToSign (createSigningInfo method bucket key headers queryParams)
  headers.insert (ascii "Authorization")
    (ascii "OSS " ++ o.config.accessKeyId ++ ascii ":" ++ o.calculateSignature stringToSign)

/-! ## The resource of the service -/

/-- The sub-resources of a query in the order of their names. -/
def sortedNames (queryParams : InsertionMap ByteString ByteString) : List ByteString :=
  sortStrings (queryParams.keys.filter (fun param => decide (param ∈ subResources)))

/-- The text of a parameter of the query. -/
def paramOf (queryParams : InsertionMap ByteString ByteString) (param : ByteString) : ByteString :=
  paramText param ((queryParams.get? param).getD [])

def sortedResource (bucket key : ByteString) (queryParams : InsertionMap ByteString ByteString) :
    ByteString :=
  appendParams (resourcePath bucket key) ((sortedNames queryParams).map (paramOf queryParams))

/-- The sub-resources of a query in the order of the list. -/
def listedNames (queryParams : InsertionMap ByteString ByteString) : List ByteString :=
  subResources.filter (fun param => queryParams.contains param)

/-- The list has the sub-resources of the query in the order of their names. -/
def Alphabetical (queryParams : InsertionMap ByteString ByteString) : Prop :=
  (listedNames queryParams).Pairwise (fun a b => precedes a b = true)

instance alphabeticalDecidable (queryParams : InsertionMap ByteString ByteString) :
    Decidable (Alphabetical queryParams) :=
  inferInstanceAs (Decidable ((listedNames queryParams).Pairwise _))

/-! ## The order of texts -/

theorem precedes_or_eq_of_not {s t : ByteString} (h : precedes t s = false) :
    precedes s t = true ∨ s = t := by
  rcases precedes_or_eq s t with hst | heq | hts
  · exact .inl hst
  · exact .inr heq
  · exact absurd (hts.symm.trans h) Bool.noConfusion

instance sortStringsTotal : Std.Total (fun a b : ByteString => precedes b a = false) where
  total a b := by
    rcases precedes_or_eq a b with hab | rfl | hba
    · exact .inl (precedes_asymm hab)
    · exact .inl (precedes_irrefl a)
    · exact .inr (precedes_asymm hba)

instance sortStringsTrans : IsTrans ByteString (fun a b => precedes b a = false) where
  trans a b c hab hbc := by
    rcases precedes_or_eq_of_not hab with hlt | rfl
    · rcases precedes_or_eq_of_not hbc with hlt' | rfl
      · exact precedes_asymm (precedes_trans hlt hlt')
      · exact hab
    · exact hbc

instance sortStringsAntisymm : Std.Antisymm (fun a b : ByteString => precedes b a = false) where
  antisymm a b hab hba := by
    rcases precedes_or_eq_of_not hab with hlt | heq
    · exact absurd hlt (by rw [hba]; exact Bool.false_ne_true)
    · exact heq

/-- A list of distinct texts is the sorted one exactly if each comes before those behind it. -/
theorem eq_sortStrings_iff {l strings : List ByteString} (hperm : l.Perm strings)
    (hnodup : l.Nodup) :
    l = sortStrings strings ↔ l.Pairwise (fun a b => precedes a b = true) := by
  have hsorted : (sortStrings strings).Pairwise (fun a b => precedes b a = false) :=
    List.pairwise_insertionSort _ _
  constructor
  · intro h
    rw [← h] at hsorted
    refine (hsorted.and hnodup).imp (fun hab => ?_)
    exact (precedes_or_eq_of_not hab.1).resolve_right hab.2
  · intro h
    have hl : l.Pairwise (fun a b => precedes b a = false) := h.imp precedes_asymm
    exact (hperm.trans (sortStrings_perm strings).symm).eq_of_pairwise' hl hsorted

/-! ## The texts of parameters -/

/-- What may stand in the name of a parameter. -/
def isNameByte (b : UInt8) : Bool := b != byte '=' && b != byte '&'

theorem joinStrings_cons (c : UInt8) (part : ByteString) (parts : List ByteString) :
    joinStrings c (part :: parts) = part ++ parts.flatMap (c :: ·) := by
  rw [joinStrings]
  induction parts generalizing part with
  | nil => simp
  | cons next parts ih =>
      rw [List.intercalate_cons_cons, ih, List.flatMap_cons]
      simp

section Names

variable {f : ByteString → ByteString} (hf : ∀ p, ∃ v, f p = paramText p v)

include hf

/-- The name of the first of some parameters. -/
theorem name_of_text {p : ByteString} (hp : ∀ b ∈ p, isNameByte b = true) (l : List ByteString) :
    (f p ++ (l.map f).flatMap (byte '&' :: ·)).takeWhile isNameByte = p := by
  have hrest : ∀ s : ByteString, (∀ b, s.head? = some b → isNameByte b = false) →
      (p ++ s).takeWhile isNameByte = p := by
    intro s hs
    rw [List.takeWhile_append_of_pos hp]
    cases s with
    | nil => exact List.append_nil p
    | cons b s =>
        rw [List.takeWhile_cons_of_neg (by rw [hs b rfl]; exact Bool.false_ne_true),
          List.append_nil]
  obtain ⟨v, hv⟩ := hf p
  rw [hv, paramText]
  by_cases hvalue : v ≠ []
  · rw [if_pos hvalue, List.append_assoc, List.append_assoc]
    refine hrest _ (fun b hb => ?_)
    rw [← Option.some.inj hb]
    decide
  · rw [if_neg hvalue]
    refine hrest _ (fun b hb => ?_)
    cases l with
    | nil => cases hb
    | cons next l =>
        rw [← Option.some.inj hb]
        decide

/-- The texts of parameters, each behind its sign, tell their names in order. -/
theorem names_of_texts : ∀ l l' : List ByteString,
    (∀ p ∈ l, ∀ b ∈ p, isNameByte b = true) → (∀ p ∈ l', ∀ b ∈ p, isNameByte b = true) →
    (l.map f).flatMap (byte '&' :: ·) = (l'.map f).flatMap (byte '&' :: ·) → l = l' := by
  intro l
  induction l with
  | nil =>
      intro l' _ _ h
      cases l' with
      | nil => rfl
      | cons p' l' => cases h
  | cons p l ih =>
      intro l' hl hl' h
      cases l' with
      | nil => cases h
      | cons p' l' =>
          have hp := hl p (List.mem_cons_self ..)
          have hp' := hl' p' (List.mem_cons_self ..)
          have htexts : f p ++ (l.map f).flatMap (byte '&' :: ·)
              = f p' ++ (l'.map f).flatMap (byte '&' :: ·) := (List.cons.inj h).2
          have hname : p = p' := by
            rw [← name_of_text hf hp l, htexts, name_of_text hf hp' l']
          subst hname
          rw [ih l' (fun q hq => hl q (List.mem_cons_of_mem _ hq))
            (fun q hq => hl' q (List.mem_cons_of_mem _ hq)) (List.append_cancel_left htexts)]

theorem names_of_appendParams {resource : ByteString} {l l' : List ByteString}
    (hl : ∀ p ∈ l, ∀ b ∈ p, isNameByte b = true) (hl' : ∀ p ∈ l', ∀ b ∈ p, isNameByte b = true)
    (h : appendParams resource (l.map f) = appendParams resource (l'.map f)) : l = l' := by
  have hlonger : ∀ s : ByteString, resource ≠ resource ++ (ascii "?" ++ s) := by
    intro s heq
    have hlength := congrArg List.length heq
    rw [List.length_append, List.length_append] at hlength
    have hmark : (ascii "?").length = 1 := rfl
    omega
  cases l with
  | nil =>
      cases l' with
      | nil => rfl
      | cons p' l' => exact absurd h (hlonger _)
  | cons p l =>
      cases l' with
      | nil => exact absurd h.symm (hlonger _)
      | cons p' l' =>
          have htexts := List.append_cancel_left (List.append_cancel_left
            (h : resource ++ (ascii "?" ++ joinStrings (byte '&') ((p :: l).map f)) = _))
          rw [List.map_cons, List.map_cons, joinStrings_cons, joinStrings_cons] at htexts
          exact names_of_texts hf _ _ hl hl' (congrArg (byte '&' :: ·) htexts)

end Names

/-! ## The order of the sub-resources -/

variable {queryParams : InsertionMap ByteString ByteString}

theorem subResources_named : ∀ p ∈ subResources, ∀ b ∈ p, isNameByte b = true := by
  decide +kernel

theorem nodup_subResources : subResources.Nodup := by
  decide +kernel

theorem mem_listedNames {param : ByteString} :
    param ∈ listedNames queryParams ↔ param ∈ subResources ∧ param ∈ queryParams.keys := by
  rw [listedNames, List.mem_filter, InsertionMap.mem_keys_iff, InsertionMap.contains,
    Option.isSome_iff_exists]

/-- The two orders are of the same names. -/
theorem listedNames_perm (queryParams : InsertionMap ByteString ByteString) :
    (listedNames queryParams).Perm
      (queryParams.keys.filter (fun param => decide (param ∈ subResources))) := by
  refine (List.perm_ext_iff_of_nodup (nodup_subResources.filter _)
    (queryParams.nodup_keys.filter _)).mpr (fun param => ?_)
  refine mem_listedNames.trans ?_
  rw [List.mem_filter, decide_eq_true_eq]
  exact and_comm

/-- The loop over the list is one over the names that the query has. -/
theorem buildCanonicalizedResource_eq (bucket key : ByteString)
    (queryParams : InsertionMap ByteString ByteString) :
    buildCanonicalizedResource bucket key queryParams
      = appendParams (resourcePath bucket key)
          ((listedNames queryParams).map (paramOf queryParams)) := by
  have hloop : ∀ l : List ByteString,
      l.filterMap (fun param => (queryParams.get? param).map (paramText param))
        = (l.filter (fun param => queryParams.contains param)).map (paramOf queryParams) := by
    intro l
    induction l with
    | nil => rfl
    | cons param l ih =>
        rw [List.filterMap_cons, List.filter_cons, ih, InsertionMap.contains]
        cases hget : queryParams.get? param with
        | none => rfl
        | some value =>
            show paramText param value :: _ = paramOf queryParams param :: _
            rw [paramOf, hget]
            rfl
  rw [buildCanonicalizedResource, hloop, listedNames]

/-- **THE RESOURCE** is that of the service exactly if the list has the sub-resources of the
    query in the order of their names. -/
theorem canonicalizedResource_iff (bucket key : ByteString)
    (queryParams : InsertionMap ByteString ByteString) :
    buildCanonicalizedResource bucket key queryParams = sortedResource bucket key queryParams ↔
      Alphabetical queryParams := by
  have hsorted : listedNames queryParams = sortedNames queryParams ↔ Alphabetical queryParams :=
    eq_sortStrings_iff (listedNames_perm queryParams) (nodup_subResources.filter _)
  rw [buildCanonicalizedResource_eq, sortedResource, ← hsorted]
  constructor
  · intro h
    refine names_of_appendParams (fun p => ⟨_, rfl⟩) (fun p hp => ?_) (fun p hp => ?_) h
    · exact subResources_named p (mem_listedNames.mp hp).1
    · have hmem := (sortStrings_perm _).mem_iff.mp hp
      exact subResources_named p (of_decide_eq_true (List.mem_filter.mp hmem).2)
  · intro h
    rw [h]

/-- The query of a part of an upload. -/
def partQuery : InsertionMap ByteString ByteString :=
  (InsertionMap.empty.insert (ascii "uploadId") (ascii "0004B9")).insert (ascii "partNumber")
    (ascii "1")

/-- The parts of an upload are signed over `uploadId` before `partNumber`. -/
theorem uploadId_before_partNumber :
    buildCanonicalizedResource (ascii "photos") (ascii "a.jpg") partQuery
        = ascii "/photos/a.jpg?uploadId=0004B9&partNumber=1" ∧
      ¬ ∀ bucket key queryParams,
        buildCanonicalizedResource bucket key queryParams
          = sortedResource bucket key queryParams := by
  refine ⟨by decide +kernel, fun hall => ?_⟩
  have hparts := hall (ascii "photos") (ascii "a.jpg") partQuery
  exact absurd hparts (by decide +kernel)

/-- The string to sign ends with the resource, and nothing before it depends on that. -/
theorem buildStringToSign_eq (info : OSSSigningInfo) : ∃ lead, ∀ resource,
    buildStringToSign { info with canonicalizedResource := resource } = lead ++ resource := by
  have hlines : ∀ resource, buildStringToSign { info with canonicalizedResource := resource }
      = if info.canonicalizedOssHeaders ≠ [] then
          info.method ++ ascii "\n" ++ info.contentMd5 ++ ascii "\n" ++ info.contentType
            ++ ascii "\n" ++ info.date ++ ascii "\n" ++ info.canonicalizedOssHeaders ++ resource
        else info.method ++ ascii "\n" ++ info.contentMd5 ++ ascii "\n" ++ info.contentType
            ++ ascii "\n" ++ info.date ++ ascii "\n" ++ resource := fun _ => rfl
  by_cases hheaders : info.canonicalizedOssHeaders ≠ []
  · exact ⟨_, fun resource => (hlines resource).trans (if_pos hheaders)⟩
  · exact ⟨_, fun resource => (hlines resource).trans (if_neg hheaders)⟩

/-- A request is signed over the text of the service under the same condition. -/
theorem stringToSign_iff (method bucket key : ByteString)
    (headers queryParams : InsertionMap ByteString ByteString) :
    buildStringToSign (createSigningInfo method bucket key headers queryParams)
        = buildStringToSign { createSigningInfo method bucket key headers queryParams with
            canonicalizedResource := sortedResource bucket key queryParams } ↔
      Alphabetical queryParams := by
  obtain ⟨lead, hlead⟩ := buildStringToSign_eq
    (createSigningInfo method bucket key headers queryParams)
  have hown : buildStringToSign (createSigningInfo method bucket key headers queryParams)
      = lead ++ buildCanonicalizedResource bucket key queryParams := hlead _
  rw [hown, hlead, ← canonicalizedResource_iff bucket key queryParams]
  exact List.append_right_inj _

end AliyunOSS

end VHono
