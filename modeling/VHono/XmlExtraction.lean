import VHono.BucketListing
import VHono.CheckedSlices
import VHono.ErrorClassification
import VHono.NumberTexts

/-! # Reading the answers of the storage

    The text between two tags is cut out of the body of an answer: the tags are
    searched for from its beginning, each on its own, and the slice runs from
    behind the opening tag to the closing one.  A listing is read element by
    element, each search starting behind the last closing tag.  A slice out of
    bounds is a panic, which is `none`. -/

namespace VHono

open ByteString NumberTexts CheckedSlices

namespace XmlExtraction

/-- The text from `skip` behind the start of the opening tag to the closing one, if both are
    there. -/
def between (opening : ByteString) (skip : Nat) (closing body : ByteString) :
    Option (Option ByteString) :=
  match indexOf opening body with
  | none => some none
  | some start =>
    match indexOf closing body with
    | none => some none
    | some stop => (cut body (start + skip) stop).map some

def extractErrorCodeFromXml (body : ByteString) : Option ByteString :=
  (between (ascii "<Code>") 6 (ascii "</Code>") body).map (·.getD [])

def extractErrorMessageFromXml (body : ByteString) : Option ByteString :=
  (between (ascii "<Message>") 9 (ascii "</Message>") body).map (·.getD [])

def extractErrorMessage (body : ByteString) : Option ByteString :=
  (between (ascii "<Message>") 9 (ascii "</Message>") body).map (·.getD body)

def extractUploadId (body : ByteString) : Option ByteString :=
  (between (ascii "<UploadId>") 10 (ascii "</UploadId>") body).map (·.getD [])

/-- `s3_parse_iso8601_date`, at the time `now` -/
def parseIso8601Date (now : Int) (dateStr : ByteString) : Int := if dateStr = [] then 0 else now

def parseObjectFromXml (now : Int) (xml : ByteString) : Option ObjectInfo := do
  let key ← between (ascii "<Key>") 5 (ascii "</Key>") xml
  let size ← between (ascii "<Size>") 6 (ascii "</Size>") xml
  let etag ← between (ascii "<ETag>") 6 (ascii "</ETag>") xml
  let lastModified ← between (ascii "<LastModified>") 14 (ascii "</LastModified>") xml
  return {
    key := key.getD []
    size := (size.map i64).getD 0
    etag := etag.getD []
    contentType := inferContentType (key.getD [])
    lastModified := (lastModified.map (parseIso8601Date now)).getD 0 }

/-- The prefix of an element, if it has one. -/
def parsePrefix (xml : ByteString) : Option (List ByteString) :=
  (between (ascii "<Prefix>") 8 (ascii "</Prefix>") xml).map (·.toList)

section
variable {α : Type} (opening closing : ByteString) (closingLen : Nat)
  (item : ByteString → Option (List α))

/-- The loop over the elements, unless it takes more passes. -/
def elementLoop (body : ByteString) : Nat → Nat → List α → Option (Option (List α))
  | 0, _, _ => none
  | passes + 1, searchPos, found =>
    match indexFrom opening body searchPos with
    | none => some (some found)
    | some start =>
      match indexFrom closing body start with
      | none => some (some found)
      | some stop =>
        match (cut body start (stop + closingLen)).bind item with
        | none => some none
        | some items => elementLoop body passes (stop + closingLen) (found ++ items)

end

def parseContents (now : Int) (body : ByteString) (passes : Nat) :
    Option (Option (List ObjectInfo)) :=
  elementLoop (ascii "<Contents>") (ascii "</Contents>") 11
    (fun xml => (parseObjectFromXml now xml).map ([·])) body passes 0 []

def parseCommonPrefixes (body : ByteString) (passes : Nat) : Option (Option (List ByteString)) :=
  elementLoop (ascii "<CommonPrefixes>") (ascii "</CommonPrefixes>") 17 parsePrefix body passes 0 []

/-- The listing, unless one of the loops takes more passes. -/
def parseListObjectsResponse (now : Int) (body : ByteString) (passes : Nat) :
    Option (Option ListResult) :=
  match between (ascii "<IsTruncated>") 13 (ascii "</IsTruncated>") body,
      between (ascii "<NextContinuationToken>") 23 (ascii "</NextContinuationToken>") body with
  | some truncatedStr, some token =>
    match parseContents now body passes with
    | none => none
    | some none => some none
    | some (some objects) =>
      (parseCommonPrefixes body passes).map (fun prefixes => prefixes.map (fun commonPrefixes =>
        { objects := objects
          commonPrefixes := commonPrefixes
          isTruncated := truncatedStr == some (ascii "true")
          nextMarker := token.getD [] }))
  | _, _ => some none

/-! ## One slice -/

/-- The slice is in bounds exactly if the tags are in order. -/
theorem between_isSome {opening closing : ByteString} {skip : Nat}
    (h : Apart (byte '<') opening closing) (hskip : skip = opening.length) (body : ByteString) :
    (between opening skip closing body).isSome ↔ InOrder opening closing body := by
  subst hskip
  rw [between]
  cases hi : indexOf opening body with
  | none => exact iff_of_true rfl (fun i hmem => by simp [hi] at hmem)
  | some i =>
      cases hj : indexOf closing body with
      | none => exact iff_of_true rfl (fun _ _ j hmem => by simp [hj] at hmem)
      | some j =>
          obtain ⟨hopening, -⟩ := indexOf_spec hi
          obtain ⟨hclosing, hlen⟩ := indexOf_spec hj
          show ((cut body (i + opening.length) j).map some).isSome ↔ _
          rw [Option.isSome_map, cut_isSome]
          constructor
          · rintro ⟨hle, -⟩ i' hi' j' hj'
            obtain rfl := Option.some.inj (hi.symm.trans hi')
            obtain rfl := Option.some.inj (hj.symm.trans hj')
            omega
          · intro horder
            exact ⟨h.end_le hopening hclosing (horder i hi j hj), by omega⟩

/-- Where the slice is in bounds, it is what lies between the tags. -/
theorem between_eq_betweenTags (opening closing body : ByteString) :
    between opening opening.length closing body = betweenTags body opening closing := by
  rw [between, betweenTags]
  cases hi : indexOf opening body with
  | none => rfl
  | some i =>
      cases hj : indexOf closing body with
      | none => rfl
      | some j =>
          have hlen := (indexOf_spec hj).2
          show (cut body (i + opening.length) j).map some = if i + opening.length ≤ j then _ else _
          by_cases hle : i + opening.length ≤ j
          · rw [cut_within hle (by omega), if_pos hle]
            rfl
          · rw [cut, if_neg (fun hboth => hle hboth.1), if_neg hle]
            rfl

theorem extractErrorMessage_eq (body : ByteString) :
    extractErrorMessage body = s3ExtractErrorMessage body := by
  rw [extractErrorMessage, s3ExtractErrorMessage, ← between_eq_betweenTags]
  rfl

/-! ## The elements of a body -/

/-- The elements that a scan from the beginning finds: from an opening tag to the next closing
    one, and then on behind it. -/
inductive Element (opening closing : ByteString) : ByteString → ByteString → Prop
  | here {text : ByteString} {i j : Nat} : indexOf opening text = some i →
      indexFrom closing text i = some j →
      Element opening closing text (ByteString.slice text i (j + closing.length))
  | later {text xml : ByteString} {i j : Nat} : indexOf opening text = some i →
      indexFrom closing text i = some j →
      Element opening closing (text.drop (j + closing.length)) xml →
      Element opening closing text xml

/-- A text without an opening tag, or without a closing one behind it, has no elements. -/
theorem not_element {opening closing text xml : ByteString}
    (h : ∀ i ∈ indexOf opening text, indexFrom closing text i = none) :
    ¬ Element opening closing text xml := by
  intro helement
  cases helement with
  | here hi hj => exact nomatch hj.symm.trans (h _ hi)
  | later hi hj _ => exact nomatch hj.symm.trans (h _ hi)

theorem element_iff {opening closing text : ByteString} {i j : Nat}
    (hi : indexOf opening text = some i) (hj : indexFrom closing text i = some j)
    (xml : ByteString) : Element opening closing text xml ↔
      xml = ByteString.slice text i (j + closing.length) ∨
        Element opening closing (text.drop (j + closing.length)) xml := by
  constructor
  · intro helement
    cases helement with
    | here hi' hj' =>
        obtain rfl := Option.some.inj (hi.symm.trans hi')
        obtain rfl := Option.some.inj (hj.symm.trans hj')
        exact Or.inl rfl
    | later hi' hj' hlater =>
        obtain rfl := Option.some.inj (hi.symm.trans hi')
        obtain rfl := Option.some.inj (hj.symm.trans hj')
        exact Or.inr hlater
  · rintro (rfl | hlater)
    · exact Element.here hi hj
    · exact Element.later hi hj hlater

section
variable {α : Type} {opening closing : ByteString} {item : ByteString → Option (List α)}

/-- What one pass does, told by what lies behind the position. -/
theorem elementLoop_none {body : ByteString} {searchPos : Nat}
    (h : ∀ i ∈ indexOf opening (body.drop searchPos),
      indexFrom closing (body.drop searchPos) i = none) (passes : Nat) (found : List α) :
    elementLoop opening closing closing.length item body (passes + 1) searchPos found
      = some (some found) := by
  rw [elementLoop, indexFrom]
  cases hi : indexOf opening (body.drop searchPos) with
  | none => rfl
  | some i =>
      have hfrom : indexFrom closing body (i + searchPos) = none := by
        rw [Nat.add_comm, indexFrom_drop, h i hi]
        rfl
      simp only [Option.map_some, hfrom]

theorem elementLoop_some (hclosing : closing ≠ []) {body : ByteString} {searchPos i j : Nat}
    (hi : indexOf opening (body.drop searchPos) = some i)
    (hj : indexFrom closing (body.drop searchPos) i = some j) (passes : Nat) (found : List α) :
    elementLoop opening closing closing.length item body (passes + 1) searchPos found
      = match item (ByteString.slice (body.drop searchPos) i (j + closing.length)) with
        | none => some none
        | some items => elementLoop opening closing closing.length item body passes
            (searchPos + j + closing.length) (found ++ items) := by
  obtain ⟨hij, -, hlen⟩ := indexFrom_spec hj hclosing
  rw [List.length_drop] at hlen
  have hpos : 0 < closing.length := List.length_pos_iff.mpr hclosing
  have hfrom : indexFrom closing body (i + searchPos) = some (searchPos + j) := by
    rw [Nat.add_comm, indexFrom_drop, hj]
    rfl
  have hcut : cut body (i + searchPos) (searchPos + j + closing.length)
      = some (ByteString.slice (body.drop searchPos) i (j + closing.length)) := by
    rw [cut_within (by omega) (by omega), Nat.add_comm i, Nat.add_assoc, slice_drop]
  rw [elementLoop, indexFrom, hi]
  simp only [Option.map_some, hfrom, hcut, Option.bind_some]

/-- Each pass moves the search behind a closing tag, so the loop ends; and it returns exactly if
    every element from there on can be read. -/
theorem elementLoop_spec (hclosing : closing ≠ []) (body : ByteString) (passes searchPos : Nat)
    (found : List α) (h : body.length - searchPos < passes) :
    ∃ result, elementLoop opening closing closing.length item body passes searchPos found
        = some result ∧
      (result.isSome ↔
        ∀ xml, Element opening closing (body.drop searchPos) xml → (item xml).isSome) := by
  induction passes generalizing searchPos found with
  | zero => exact absurd h (Nat.not_lt_zero _)
  | succ passes ih =>
      by_cases hlast : ∀ i ∈ indexOf opening (body.drop searchPos),
          indexFrom closing (body.drop searchPos) i = none
      · refine ⟨some found, elementLoop_none hlast passes found, ?_⟩
        exact iff_of_true rfl (fun xml hxml => absurd hxml (not_element hlast))
      · push Not at hlast
        obtain ⟨i, hi, hne⟩ := hlast
        obtain ⟨j, hj⟩ := Option.ne_none_iff_exists'.mp hne
        obtain ⟨-, -, hlen⟩ := indexFrom_spec hj hclosing
        rw [List.length_drop] at hlen
        have hpos : 0 < closing.length := List.length_pos_iff.mpr hclosing
        rw [elementLoop_some hclosing hi hj]
        cases hitem : item (ByteString.slice (body.drop searchPos) i (j + closing.length)) with
        | none =>
            -- this element cannot be read, and the loop stops at it
            refine ⟨none, rfl, iff_of_false (fun hnone => by cases hnone) (fun hall => ?_)⟩
            have hread := hall _ (Element.here hi hj)
            rw [hitem] at hread
            cases hread
        | some items =>
            -- The closing tag is not empty: what lies behind it is shorter.
            obtain ⟨result, hresult, hiff⟩ :=
              ih (searchPos + j + closing.length) (found ++ items) (by omega)
            refine ⟨result, hresult, hiff.trans ?_⟩
            rw [Nat.add_assoc, ← List.drop_drop]
            constructor
            · intro hall xml hxml
              rcases (element_iff hi hj xml).mp hxml with rfl | hlater
              · rw [hitem]
                rfl
              · exact hall xml hlater
            · exact fun hall xml hxml => hall xml (Element.later hi hj hxml)

end

/-! ## All extractors -/

/-- The tags of an answer, each pair with the code that cuts between them. -/
def answerTags : List (ByteString × ByteString) :=
  [(ascii "<Code>", ascii "</Code>"), (ascii "<Message>", ascii "</Message>"),
    (ascii "<UploadId>", ascii "</UploadId>"), (ascii "<IsTruncated>", ascii "</IsTruncated>"),
    (ascii "<NextContinuationToken>", ascii "</NextContinuationToken>")]

/-- The tags of an object in a listing. -/
def objectTags : List (ByteString × ByteString) :=
  [(ascii "<Key>", ascii "</Key>"), (ascii "<Size>", ascii "</Size>"),
    (ascii "<ETag>", ascii "</ETag>"), (ascii "<LastModified>", ascii "</LastModified>")]

/-- In the body and in each of its elements, no tag is closed before it is opened. -/
structure WellOrdered (body : ByteString) : Prop where
  answer   : ∀ tags ∈ answerTags, InOrder tags.1 tags.2 body
  contents : ∀ xml, Element (ascii "<Contents>") (ascii "</Contents>") body xml →
    ∀ tags ∈ objectTags, InOrder tags.1 tags.2 xml
  prefixes : ∀ xml, Element (ascii "<CommonPrefixes>") (ascii "</CommonPrefixes>") body xml →
    InOrder (ascii "<Prefix>") (ascii "</Prefix>") xml

/-- No extractor panics, and the loops of the listing end. -/
structure AllReturn (now : Int) (body : ByteString) : Prop where
  code    : (extractErrorCodeFromXml body).isSome
  message : (extractErrorMessageFromXml body).isSome
  text    : (extractErrorMessage body).isSome
  upload  : (extractUploadId body).isSome
  listing : ∀ passes, body.length < passes →
    ∃ result, parseListObjectsResponse now body passes = some (some result)

theorem message_isSome (body : ByteString) :
    (between (ascii "<Message>") 9 (ascii "</Message>") body).isSome ↔
      InOrder (ascii "<Message>") (ascii "</Message>") body :=
  between_isSome (by decide) rfl body

theorem parseObjectFromXml_isSome (now : Int) (xml : ByteString) :
    (parseObjectFromXml now xml).isSome ↔
      ∀ tags ∈ objectTags, InOrder tags.1 tags.2 xml := by
  have hkey : (between (ascii "<Key>") 5 (ascii "</Key>") xml).isSome ↔ _ :=
    between_isSome (by decide) rfl xml
  have hsize : (between (ascii "<Size>") 6 (ascii "</Size>") xml).isSome ↔ _ :=
    between_isSome (by decide) rfl xml
  have hetag : (between (ascii "<ETag>") 6 (ascii "</ETag>") xml).isSome ↔ _ :=
    between_isSome (by decide) rfl xml
  have hmodified : (between (ascii "<LastModified>") 14 (ascii "</LastModified>") xml).isSome ↔ _ :=
    between_isSome (by decide) rfl xml
  rw [objectTags, List.forall_mem_cons, List.forall_mem_cons, List.forall_mem_cons,
    List.forall_mem_singleton, ← hkey, ← hsize, ← hetag, ← hmodified, parseObjectFromXml]
  cases between (ascii "<Key>") 5 (ascii "</Key>") xml with
  | none => simp
  | some key =>
      cases between (ascii "<Size>") 6 (ascii "</Size>") xml with
      | none => simp
      | some size =>
          cases between (ascii "<ETag>") 6 (ascii "</ETag>") xml with
          | none => simp
          | some etag =>
              cases between (ascii "<LastModified>") 14 (ascii "</LastModified>") xml with
              | none => simp
              | some lastModified => simp

theorem parsePrefix_isSome (xml : ByteString) :
    (parsePrefix xml).isSome ↔ InOrder (ascii "<Prefix>") (ascii "</Prefix>") xml := by
  rw [parsePrefix, Option.isSome_map]
  exact between_isSome (by decide) rfl xml

theorem parseContents_spec (now : Int) {body : ByteString} {passes : Nat}
    (h : body.length < passes) :
    ∃ result, parseContents now body passes = some result ∧
      (result.isSome ↔ ∀ xml, Element (ascii "<Contents>") (ascii "</Contents>") body xml →
        ∀ tags ∈ objectTags, InOrder tags.1 tags.2 xml) := by
  have hloop : ∃ result, parseContents now body passes = some result ∧
      (result.isSome ↔ ∀ xml, Element (ascii "<Contents>") (ascii "</Contents>") body xml →
        ((parseObjectFromXml now xml).map ([·])).isSome) :=
    elementLoop_spec (by decide) body passes 0 [] (by omega)
  obtain ⟨result, hresult, hiff⟩ := hloop
  refine ⟨result, hresult, hiff.trans (forall₂_congr (fun xml _ => ?_))⟩
  rw [Option.isSome_map, parseObjectFromXml_isSome]

theorem parseCommonPrefixes_spec {body : ByteString} {passes : Nat} (h : body.length < passes) :
    ∃ result, parseCommonPrefixes body passes = some result ∧
      (result.isSome ↔
        ∀ xml, Element (ascii "<CommonPrefixes>") (ascii "</CommonPrefixes>") body xml →
          InOrder (ascii "<Prefix>") (ascii "</Prefix>") xml) := by
  have hloop : ∃ result, parseCommonPrefixes body passes = some result ∧
      (result.isSome ↔ ∀ xml,
        Element (ascii "<CommonPrefixes>") (ascii "</CommonPrefixes>") body xml →
          (parsePrefix xml).isSome) :=
    elementLoop_spec (by decide) body passes 0 [] (by omega)
  obtain ⟨result, hresult, hiff⟩ := hloop
  exact ⟨result, hresult, hiff.trans (forall₂_congr (fun xml _ => parsePrefix_isSome xml))⟩

/-- The loops of a listing end, and it is returned exactly if its tags are in order. -/
theorem parseListObjectsResponse_spec (now : Int) {body : ByteString} {passes : Nat}
    (h : body.length < passes) :
    ∃ result, parseListObjectsResponse now body passes = some result ∧
      (result.isSome ↔
        InOrder (ascii "<IsTruncated>") (ascii "</IsTruncated>") body ∧
        InOrder (ascii "<NextContinuationToken>") (ascii "</NextContinuationToken>") body ∧
        (∀ xml, Element (ascii "<Contents>") (ascii "</Contents>") body xml →
          ∀ tags ∈ objectTags, InOrder tags.1 tags.2 xml) ∧
        ∀ xml, Element (ascii "<CommonPrefixes>") (ascii "</CommonPrefixes>") body xml →
          InOrder (ascii "<Prefix>") (ascii "</Prefix>") xml) := by
  have htruncated : (between (ascii "<IsTruncated>") 13 (ascii "</IsTruncated>") body).isSome ↔ _ :=
    between_isSome (by decide) rfl body
  have htoken : (between (ascii "<NextContinuationToken>") 23
      (ascii "</NextContinuationToken>") body).isSome ↔ _ :=
    between_isSome (by decide) rfl body
  obtain ⟨objects, hobjects, hcontents⟩ := parseContents_spec now h
  obtain ⟨prefixes, hprefixes, hcommon⟩ := parseCommonPrefixes_spec h
  rw [← htruncated, ← htoken, ← hcontents, ← hcommon, parseListObjectsResponse, hobjects, hprefixes]
  cases between (ascii "<IsTruncated>") 13 (ascii "</IsTruncated>") body with
  | none => exact ⟨none, rfl, by simp⟩
  | some truncatedStr =>
      cases between (ascii "<NextContinuationToken>") 23
          (ascii "</NextContinuationToken>") body with
      | none => exact ⟨none, rfl, by simp⟩
      | some token =>
          cases objects with
          | none => exact ⟨none, rfl, by simp⟩
          | some objects => exact ⟨_, rfl, by simp⟩

/-- **WHEN EVERYTHING IS RETURNED**: exactly if no tag is closed before it is opened. -/
theorem allReturn_iff (now : Int) (body : ByteString) : AllReturn now body ↔ WellOrdered body := by
  have hcode : (extractErrorCodeFromXml body).isSome ↔
      InOrder (ascii "<Code>") (ascii "</Code>") body := by
    rw [extractErrorCodeFromXml, Option.isSome_map]
    exact between_isSome (by decide) rfl body
  have hmessage : (extractErrorMessageFromXml body).isSome ↔
      InOrder (ascii "<Message>") (ascii "</Message>") body := by
    rw [extractErrorMessageFromXml, Option.isSome_map, message_isSome]
  have htext : (extractErrorMessage body).isSome ↔
      InOrder (ascii "<Message>") (ascii "</Message>") body := by
    rw [extractErrorMessage, Option.isSome_map, message_isSome]
  have hupload : (extractUploadId body).isSome ↔
      InOrder (ascii "<UploadId>") (ascii "</UploadId>") body := by
    rw [extractUploadId, Option.isSome_map]
    exact between_isSome (by decide) rfl body
  constructor
  · intro hall
    obtain ⟨result, hresult, hiff⟩ := parseListObjectsResponse_spec now (Nat.lt_succ_self body.length)
    obtain ⟨listing, hlisting⟩ := hall.listing _ (Nat.lt_succ_self body.length)
    obtain rfl := Option.some.inj (hresult.symm.trans hlisting)
    obtain ⟨htruncated, htoken, hcontents, hprefixes⟩ := hiff.mp rfl
    refine ⟨?_, hcontents, hprefixes⟩
    rw [answerTags, List.forall_mem_cons, List.forall_mem_cons, List.forall_mem_cons,
      List.forall_mem_cons, List.forall_mem_singleton]
    exact ⟨hcode.mp hall.code, hmessage.mp hall.message, hupload.mp hall.upload, htruncated, htoken⟩
  · rintro ⟨hanswer, hcontents, hprefixes⟩
    rw [answerTags, List.forall_mem_cons, List.forall_mem_cons, List.forall_mem_cons,
      List.forall_mem_cons, List.forall_mem_singleton] at hanswer
    obtain ⟨hcode', hmessage', hupload', htruncated, htoken⟩ := hanswer
    refine ⟨hcode.mpr hcode', hmessage.mpr hmessage', htext.mpr hmessage', hupload.mpr hupload', ?_⟩
    intro passes hpasses
    obtain ⟨result, hresult, hiff⟩ := parseListObjectsResponse_spec now hpasses
    obtain ⟨listing, rfl⟩ := Option.isSome_iff_exists.mp
      (hiff.mpr ⟨htruncated, htoken, hcontents, hprefixes⟩)
    exact ⟨listing, hresult⟩

/-- A body whose first closing tag stands before the opening one stops the program. -/
theorem closed_before_opened : ¬∀ (now : Int) (body : ByteString), AllReturn now body := by
  intro hall
  have hcode := (hall 0 (ascii "</Code><Code>")).code
  exact absurd hcode (by decide)

end XmlExtraction

end VHono
