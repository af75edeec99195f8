import VHono.S3Signing

/-! # The texts of a signed request

    How long the two encodings of a text, of a path and of a host make a
    request, and which names of headers are signed: the names written by the
    code are those of the service exactly if no header is left out and no two
    are one.  Where the texts differ, that of the service is longer. -/

namespace VHono

open ByteString AwsSignature

/-! ## Joined texts -/

/-- The length of some texts, each with a separator. -/
def joinedLength (parts : List ByteString) : Nat := (parts.map (fun s => s.length + 1)).sum

theorem joinedLength_cons (s : ByteString) (parts : List ByteString) :
    joinedLength (s :: parts) = s.length + 1 + joinedLength parts := rfl

theorem length_joinStrings (c : UInt8) {parts : List ByteString} (h : parts ≠ []) :
    (joinStrings c parts).length + 1 = joinedLength parts := by
  induction parts with
  | nil => exact absurd rfl h
  | cons s parts ih =>
      cases parts with
      | nil => rw [joinStrings, List.intercalate_singleton]; rfl
      | cons t parts =>
          have hrest := ih (List.cons_ne_nil _ _)
          rw [joinStrings] at hrest
          rw [joinStrings, List.intercalate_cons_cons, joinedLength_cons, List.length_append,
            List.length_append, List.length_singleton]
          omega

theorem joinedLength_perm {parts parts' : List ByteString} (h : parts.Perm parts') :
    joinedLength parts = joinedLength parts' := (h.map _).sum_eq

theorem joinedLength_le {parts parts' : List ByteString} (h : parts.Sublist parts') :
    joinedLength parts ≤ joinedLength parts' := by
  induction h with
  | slnil => exact Nat.le_refl _
  | cons s _ ih => rw [joinedLength_cons]; omega
  | cons_cons s _ ih => rw [joinedLength_cons, joinedLength_cons]; omega

/-- Leaving a text out makes the rest shorter. -/
theorem eq_of_joinedLength {parts parts' : List ByteString} (h : parts.Sublist parts')
    (hlength : joinedLength parts' ≤ joinedLength parts) : parts = parts' := by
  induction h with
  | slnil => rfl
  | cons s hsub _ =>
      rw [joinedLength_cons] at hlength
      have hle := joinedLength_le hsub
      omega
  | cons_cons s _ ih =>
      rw [joinedLength_cons, joinedLength_cons] at hlength
      rw [ih (by omega)]

/-! ## Encodings -/

/-- A byte that stays as it is in the path of a URL. -/
def isPathByte (b : UInt8) : Bool := isUnreserved b || b = byte '/'

theorem encodePath_of_plain {s : ByteString} (h : ∀ b ∈ s, isPathByte b = true) :
    encodePath s = s := by
  induction s with
  | nil => rfl
  | cons b s ih =>
      have hb : isUnreserved b = true ∨ b = byte '/' := by
        have hplain := h b (List.mem_cons_self ..)
        rwa [isPathByte, Bool.or_eq_true, decide_eq_true_eq] at hplain
      have hrest : encodePath s = s := ih (fun c hc => h c (List.mem_cons_of_mem _ hc))
      rw [encodePath, List.flatMap_cons, if_pos hb]
      exact congrArg (b :: ·) hrest

/-- Every other byte makes the encoded path longer. -/
theorem length_encodePath (s : ByteString) :
    (encodePath s).length = s.length + 2 * s.countP (fun b => !isPathByte b) := by
  induction s with
  | nil => rfl
  | cons b s ih =>
      rw [encodePath] at ih
      rw [encodePath, List.flatMap_cons, List.length_append, ih, List.countP_cons, List.length_cons]
      by_cases hb : isUnreserved b = true ∨ b = byte '/'
      · have hplain : isPathByte b = true := by
          rwa [isPathByte, Bool.or_eq_true, decide_eq_true_eq]
        rw [if_pos hb, hplain, List.length_singleton, if_neg (by decide)]
        omega
      · have hplain : isPathByte b = false := by
          rw [← Bool.not_eq_true, isPathByte, Bool.or_eq_true, decide_eq_true_eq]
          exact hb
        rw [if_neg hb, hplain, if_pos (by decide)]
        show 3 + _ = _
        omega

theorem uriEncode_of_spaceless {s : ByteString} (h : byte ' ' ∉ s) : uriEncode s = queryEscape s := by
  refine List.flatMap_congr (fun b hb => ?_)
  by_cases hunreserved : isUnreserved b = true
  · rw [if_pos hunreserved, if_pos hunreserved]
  · have hspace : b ≠ byte ' ' := fun heq => h (heq ▸ hb)
    rw [if_neg hunreserved, if_neg hunreserved, if_neg hspace]

/-- The two encodings differ in the spaces. -/
theorem length_uriEncode (s : ByteString) :
    (uriEncode s).length = (queryEscape s).length + 2 * s.count (byte ' ') := by
  induction s with
  | nil => rfl
  | cons b s ih =>
      rw [uriEncode, queryEscape] at ih
      rw [uriEncode, queryEscape, List.flatMap_cons, List.flatMap_cons, List.length_append,
        List.length_append, ih]
      by_cases hb : b = byte ' '
      · have hreserved : ¬ isUnreserved b = true := by rw [hb]; decide
        rw [if_neg hreserved, if_neg hreserved, if_pos hb, hb, List.count_cons_self]
        show 3 + _ = 1 + _ + _
        omega
      · rw [List.count_cons_of_ne hb, if_neg hb]
        omega

/-! ## Queries -/

section Queries

variable (params : InsertionMap ByteString ByteString)

/-- One parameter, written by the code and by the service. -/
def codeParam (key : ByteString) : ByteString :=
  queryEscape key ++ ascii "=" ++ queryEscape ((params.get? key).getD [])

def awsParam (key : ByteString) : ByteString :=
  uriEncode key ++ ascii "=" ++ uriEncode ((params.get? key).getD [])

/-- The spaces of a parameter. -/
def spacesOf (key : ByteString) : Nat :=
  key.count (byte ' ') + ((params.get? key).getD []).count (byte ' ')

theorem length_awsParam (key : ByteString) :
    (awsParam params key).length = (codeParam params key).length + 2 * spacesOf params key := by
  rw [awsParam, codeParam, List.length_append, List.length_append, List.length_append,
    List.length_append, length_uriEncode, length_uriEncode, spacesOf]
  omega

/-- No name and no value of a parameter has a space. -/
def Spaceless : Prop :=
  ∀ key value, params.get? key = some value → byte ' ' ∉ key ∧ byte ' ' ∉ value

variable {params}

theorem sortStrings_perm (strings : List ByteString) : (sortStrings strings).Perm strings :=
  List.perm_insertionSort _ _

theorem query_eq (h : Spaceless params) :
    S3Storage.buildCanonicalQueryString params = canonicalQuery params := by
  rw [S3Storage.buildCanonicalQueryString, canonicalQuery]
  split
  · rename_i hempty
    have hkeys : params.keys = [] := List.map_eq_nil_iff.mpr (List.length_eq_zero_iff.mp hempty)
    rw [hkeys]
    rfl
  · refine congrArg (joinStrings (byte '&')) (List.map_congr_left (fun key hkey => ?_))
    have hmem : key ∈ params.keys := (sortStrings_perm _).mem_iff.mp hkey
    obtain ⟨value, hvalue⟩ := InsertionMap.mem_keys_iff.mp hmem
    obtain ⟨hk, hv⟩ := h key value hvalue
    rw [hvalue, Option.getD_some, uriEncode_of_spaceless hk, uriEncode_of_spaceless hv]

variable (params) in
theorem joinedLength_params (keys : List ByteString) :
    joinedLength (keys.map (awsParam params))
      = joinedLength (keys.map (codeParam params)) + 2 * (keys.map (spacesOf params)).sum := by
  induction keys with
  | nil => rfl
  | cons key keys ih =>
      rw [List.map_cons, List.map_cons, joinedLength_cons, joinedLength_cons, ih, length_awsParam,
        List.map_cons, List.sum_cons]
      omega

/-- A space makes the query of the service longer. -/
theorem length_query (params : InsertionMap ByteString ByteString) :
    (S3Storage.buildCanonicalQueryString params).length ≤ (canonicalQuery params).length ∧
      ((canonicalQuery params).length ≤ (S3Storage.buildCanonicalQueryString params).length →
        Spaceless params) := by
  rw [S3Storage.buildCanonicalQueryString]
  split
  · rename_i hempty
    refine ⟨Nat.zero_le _, fun _ key value hvalue => ?_⟩
    have hentries : params.entries = [] := List.length_eq_zero_iff.mp hempty
    have hmem := InsertionMap.mem_entries_of_get? hvalue
    rw [hentries] at hmem
    cases hmem
  · rename_i hsome
    have hkeys : sortStrings params.keys ≠ [] := by
      intro hnil
      have hlength := (sortStrings_perm params.keys).length_eq
      rw [hnil, InsertionMap.keys, List.length_map] at hlength
      exact hsome hlength.symm
    have hmapped : ∀ f : ByteString → ByteString, (sortStrings params.keys).map f ≠ [] :=
      fun f hnil => hkeys (List.map_eq_nil_iff.mp hnil)
    have hcode := length_joinStrings (byte '&') (hmapped (codeParam params))
    have haws := length_joinStrings (byte '&') (hmapped (awsParam params))
    have hparams := joinedLength_params params (sortStrings params.keys)
    change (joinStrings (byte '&') ((sortStrings params.keys).map (codeParam params))).length
      ≤ (joinStrings (byte '&') ((sortStrings params.keys).map (awsParam params))).length ∧
      ((joinStrings (byte '&') ((sortStrings params.keys).map (awsParam params))).length
        ≤ (joinStrings (byte '&') ((sortStrings params.keys).map (codeParam params))).length → _)
    refine ⟨by omega, fun hle key value hvalue => ?_⟩
    have hzero : ((sortStrings params.keys).map (spacesOf params)).sum = 0 := by omega
    have hmem : key ∈ sortStrings params.keys := by
      exact (sortStrings_perm _).mem_iff.mpr (InsertionMap.mem_keys_iff.mpr ⟨value, hvalue⟩)
    have hspaces := List.sum_eq_zero_iff.mp hzero _ (List.mem_map_of_mem hmem)
    rw [spacesOf, hvalue, Option.getD_some] at hspaces
    exact ⟨List.count_eq_zero.mp (by omega), List.count_eq_zero.mp (by omega)⟩

end Queries

/-! ## Hosts -/

theorem dropWhile_append_stop {p : UInt8 → Bool} {c : UInt8} (hc : p c = false) (a r : ByteString) :
    (a ++ c :: r).dropWhile p = a.dropWhile p ++ c :: r := by
  induction a with
  | nil => rw [List.nil_append, List.dropWhile_nil, List.dropWhile_cons_of_neg (by rw [hc]; decide),
      List.nil_append]
  | cons b a ih =>
      rw [List.cons_append]
      by_cases hb : p b = true
      · rw [List.dropWhile_cons_of_pos hb, List.dropWhile_cons_of_pos hb, ih]
      · rw [List.dropWhile_cons_of_neg hb, List.dropWhile_cons_of_neg hb, List.cons_append]

theorem length_dropWhile_append (p : UInt8 → Bool) (a b : ByteString) :
    (a.dropWhile p).length ≤ ((a ++ b).dropWhile p).length := by
  induction a with
  | nil => exact Nat.zero_le _
  | cons c a ih =>
      rw [List.cons_append]
      by_cases hc : p c = true
      · rw [List.dropWhile_cons_of_pos hc, List.dropWhile_cons_of_pos hc]
        exact ih
      · rw [List.dropWhile_cons_of_neg hc, List.dropWhile_cons_of_neg hc, List.length_cons,
          List.length_cons, List.length_append]
        omega

/-- A bucket in front of the endpoint makes the host longer. -/
theorem length_trimSpace_dot (bucket endpoint : ByteString) :
    (trimSpace endpoint).length < (trimSpace (bucket ++ ascii "." ++ endpoint)).length := by
  have hdot : isSpace (byte '.') = false := by decide
  have hsplit : (endpoint.takeWhile isSpace) ++ endpoint.dropWhile isSpace = endpoint :=
    List.takeWhile_append_dropWhile
  have hshorter : ((endpoint.dropWhile isSpace).reverse.dropWhile isSpace).length
      ≤ (endpoint.reverse.dropWhile isSpace).length := by
    have hreverse : endpoint.reverse = (endpoint.dropWhile isSpace).reverse
        ++ (endpoint.takeWhile isSpace).reverse := by
      rw [← List.reverse_append, hsplit]
    rw [hreverse]
    exact length_dropWhile_append _ _ _
  have htext : bucket ++ ascii "." ++ endpoint = bucket ++ byte '.' :: endpoint := by
    rw [List.append_assoc]
    rfl
  rw [htext, trimSpace, trimSpace, dropWhile_append_stop hdot, List.reverse_append,
    List.reverse_cons, List.append_assoc, List.length_reverse, List.length_reverse]
  show _ < (List.dropWhile isSpace (endpoint.reverse ++ byte '.' :: _)).length
  rw [dropWhile_append_stop hdot, List.length_append, List.length_cons]
  omega

end VHono
