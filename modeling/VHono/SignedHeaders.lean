import VHono.CanonicalTexts
import VHono.Responses

/-! # The headers of a signed request

    The headers that are signed are those given, the host and the two of the
    signature.  They are the fields that are sent, without the one that carries
    the signature, exactly if the library accepts every name, none of them is
    that of the signature, and no two are one but for the case of letters. -/

namespace VHono

open ByteString AwsSignature

/-- The names that signing adds. -/
def ownNames : List ByteString :=
  [ascii "Host", ascii "x-amz-date", ascii "x-amz-content-sha256"]

/-- No header is left out, and no two are one. -/
structure HeadersCovered (extra : InsertionMap ByteString ByteString) : Prop where
  accepted : ∀ name ∈ extra.keys,
    Header.validName name = true ∧ toLower name ≠ ascii "authorization"
  distinct : ∀ a ∈ extra.keys ++ ownNames, ∀ b ∈ extra.keys ++ ownNames,
    toLower a = toLower b → a = b

/-- The headers to sign, with a payload hash. -/
def signedMap (endpoint : ByteString) (now : UtcTime)
    (extra : InsertionMap ByteString ByteString) (hash : ByteString) :
    InsertionMap ByteString ByteString :=
  ((extra.insert (ascii "Host") endpoint).insert (ascii "x-amz-date")
    now.datetimeStamp).insert (ascii "x-amz-content-sha256") hash

/-- Does the library send the header, and is it not the signature's? -/
def isSigned (e : ByteString × ByteString) : Bool :=
  Header.validName e.1 && decide (toLower e.1 ≠ ascii "authorization")

section Fields

variable {endpoint : ByteString} {now : UtcTime} {extra : InsertionMap ByteString ByteString}
  {hash : ByteString}

theorem mem_keys_insert {m : InsertionMap ByteString ByteString} {k k' v : ByteString} :
    k' ∈ (m.insert k v).keys ↔ k' = k ∨ k' ∈ m.keys := by
  rw [InsertionMap.mem_keys_iff, InsertionMap.mem_keys_iff, InsertionMap.get?_insert]
  by_cases hk : k' = k
  · rw [if_pos hk]
    exact iff_of_true ⟨v, rfl⟩ (.inl hk)
  · rw [if_neg hk, or_iff_right hk]

theorem mem_keys_signedMap {name : ByteString} :
    name ∈ (signedMap endpoint now extra hash).keys ↔ name ∈ extra.keys ++ ownNames := by
  rw [signedMap, mem_keys_insert, mem_keys_insert, mem_keys_insert, List.mem_append, ownNames,
    List.mem_cons, List.mem_cons, List.mem_singleton]
  tauto

theorem ownNames_accepted : ∀ name ∈ ownNames,
    Header.validName name = true ∧ toLower name ≠ ascii "authorization" := by
  decide +kernel

/-- The condition, of the headers that are signed. -/
theorem headersCovered_iff : HeadersCovered extra ↔
    (∀ e ∈ (signedMap endpoint now extra hash).entries, isSigned e = true) ∧
      ((signedMap endpoint now extra hash).entries.map (fun e => toLower e.1)).Nodup := by
  have hkeys : ((signedMap endpoint now extra hash).entries.map (fun e => toLower e.1))
      = (signedMap endpoint now extra hash).keys.map toLower := by
    rw [InsertionMap.keys, List.map_map]
    rfl
  have hsigned : ∀ e : ByteString × ByteString, isSigned e = true ↔
      Header.validName e.1 = true ∧ toLower e.1 ≠ ascii "authorization" := by
    intro e
    rw [isSigned, Bool.and_eq_true, decide_eq_true_eq]
  rw [hkeys]
  constructor
  · intro h
    refine ⟨fun e he => (hsigned e).mpr ?_, ?_⟩
    · rcases List.mem_append.mp (mem_keys_signedMap.mp (List.mem_map_of_mem he)) with hextra | hown
      · exact h.accepted e.1 hextra
      · exact ownNames_accepted e.1 hown
    · refine (List.nodup_map_iff_inj_on (InsertionMap.nodup_keys _)).mpr (fun a ha b hb hab => ?_)
      exact h.distinct a (mem_keys_signedMap.mp ha) b (mem_keys_signedMap.mp hb) hab
  · rintro ⟨hall, hnodup⟩
    refine ⟨fun name hname => ?_, fun a ha b hb hab => ?_⟩
    · obtain ⟨e, he, rfl⟩ := List.mem_map.mp
        (mem_keys_signedMap.mpr (List.mem_append_left _ hname) :
          name ∈ (signedMap endpoint now extra hash).keys)
      exact (hsigned e).mp (hall e he)
    · exact List.inj_on_of_nodup_map hnodup (mem_keys_signedMap.mpr ha)
        (mem_keys_signedMap.mpr hb) hab

theorem filter_setEntry {p : ByteString × ByteString → Bool} {k v : ByteString}
    (hp : ∀ v, p (k, v) = false) (es : List (ByteString × ByteString)) :
    (InsertionMap.setEntry k v es).filter p = es.filter p := by
  induction es with
  | nil => rw [InsertionMap.setEntry, List.filter_cons_of_neg (by rw [hp]; decide), List.filter_nil]
  | cons e es ih =>
      obtain ⟨k', v'⟩ := e
      rw [InsertionMap.setEntry]
      by_cases hk : k' = k
      · rw [if_pos hk, hk, List.filter_cons_of_neg (by rw [hp]; decide),
          List.filter_cons_of_neg (by rw [hp]; decide)]
      · rw [if_neg hk, List.filter_cons, List.filter_cons, ih]

/-- The fields that are signed of the fields that are sent, whatever the signature. -/
theorem signedFields_sent (signature : ByteString) :
    signedFields (Header.addAll []
        ((signedMap endpoint now extra hash).insert (ascii "Authorization") signature).entries)
      = (signedMap endpoint now extra hash).entries.filter isSigned := by
  rw [Header.addAll_eq_filter, List.nil_append, signedFields, List.filter_filter]
  have hauthorization : ∀ v : ByteString,
      (decide (toLower (ascii "Authorization", v).1 ≠ ascii "authorization") &&
        Header.validName (ascii "Authorization", v).1) = false := by
    intro v
    have hname : toLower (ascii "Authorization") = ascii "authorization" := by decide
    rw [decide_eq_false (fun h => h hname), Bool.false_and]
  refine (filter_setEntry (p := fun f => decide (toLower f.1 ≠ ascii "authorization") &&
    Header.validName f.1) hauthorization _).trans ?_
  exact List.filter_congr (fun f _ => Bool.and_comm _ _)

/-- The names of the code are those of the service only if the headers are covered. -/
theorem headersCovered_of_names {header : Header}
    (hfields : signedFields header = (signedMap endpoint now extra hash).entries.filter isSigned)
    (h : S3Storage.getSignedHeaders (signedMap endpoint now extra hash)
      = joinStrings (byte ';') (fieldNames header)) : HeadersCovered extra := by
  have hcode : joinedLength (S3Storage.headerNames (signedMap endpoint now extra hash))
      = joinedLength ((signedMap endpoint now extra hash).entries.map (fun e => toLower e.1)) := by
    rw [S3Storage.headerNames, joinedLength_perm (sortStrings_perm _), InsertionMap.keys,
      List.map_map]
    rfl
  have haws : joinedLength (fieldNames header)
      = joinedLength (((signedMap endpoint now extra hash).entries.filter isSigned).map
          (fun e => toLower e.1)).dedup := by
    rw [fieldNames, joinedLength_perm (sortStrings_perm _), hfields]
  have hhost : ascii "host" ∈ ((signedMap endpoint now extra hash).entries.filter isSigned).map
      (fun e => toLower e.1) := by
    have hkey : ascii "Host" ∈ (signedMap endpoint now extra hash).keys :=
      mem_keys_signedMap.mpr (List.mem_append_right _ (List.mem_cons_self ..))
    obtain ⟨e, he, hname⟩ := List.mem_map.mp hkey
    refine List.mem_map.mpr ⟨e, List.mem_filter.mpr ⟨he, ?_⟩, ?_⟩
    · rw [isSigned, hname]
      decide +kernel
    · rw [hname]
      decide
  have hawsNe : fieldNames header ≠ [] := by
    intro hnil
    have hmem : ascii "host" ∈ fieldNames header := by
      rw [fieldNames, (sortStrings_perm _).mem_iff, List.mem_dedup, hfields]
      exact hhost
    rw [hnil] at hmem
    cases hmem
  have hcodeNe : S3Storage.headerNames (signedMap endpoint now extra hash) ≠ [] := by
    intro hnil
    have hlength := length_joinStrings (byte ';') hawsNe
    have hempty : (joinStrings (byte ';') (fieldNames header)) = [] := by
      rw [← h, S3Storage.getSignedHeaders, hnil]
      rfl
    have hmem : ascii "host" ∈ fieldNames header := by
      rw [fieldNames, (sortStrings_perm _).mem_iff, List.mem_dedup, hfields]
      exact hhost
    have hlong : ascii "host" ∈ S3Storage.headerNames (signedMap endpoint now extra hash) := by
      obtain ⟨e, he, hname⟩ := List.mem_map.mp hhost
      rw [S3Storage.headerNames, (sortStrings_perm _).mem_iff, ← hname]
      exact List.mem_map_of_mem (List.mem_map_of_mem (List.mem_of_mem_filter he))
    rw [hnil] at hlong
    cases hlong
  have hlengths : joinedLength ((signedMap endpoint now extra hash).entries.map
      (fun e => toLower e.1)) = joinedLength (((signedMap endpoint now extra hash).entries.filter
        isSigned).map (fun e => toLower e.1)).dedup := by
    rw [← hcode, ← haws, ← length_joinStrings (byte ';') hcodeNe,
      ← length_joinStrings (byte ';') hawsNe, ← h]
    rfl
  have hsub : (((signedMap endpoint now extra hash).entries.filter isSigned).map
      (fun e => toLower e.1)).dedup.Sublist
        ((signedMap endpoint now extra hash).entries.map (fun e => toLower e.1)) :=
    (List.dedup_sublist _).trans (List.filter_sublist.map _)
  have heq := eq_of_joinedLength hsub (Nat.le_of_eq hlengths)
  have hmapped : ((signedMap endpoint now extra hash).entries.filter isSigned).map
      (fun e => toLower e.1) = (signedMap endpoint now extra hash).entries.map
        (fun e => toLower e.1) := by
    refine (List.filter_sublist.map _).eq_of_length_le ?_
    rw [← heq]
    exact (List.dedup_sublist _).length_le
  have hfilter : (signedMap endpoint now extra hash).entries.filter isSigned
      = (signedMap endpoint now extra hash).entries := by
    refine List.filter_sublist.eq_of_length ?_
    have hlength := congrArg List.length hmapped
    rwa [List.length_map, List.length_map] at hlength
  refine headersCovered_iff.mpr ⟨List.filter_eq_self.mp hfilter, ?_⟩
  rw [← heq]
  exact List.nodup_dedup _

end Fields

end VHono
