import Mathlib.Data.List.TakeWhile
import VHono.BucketListing

/-! # What a listing of a bucket returns

    A directory is entered only if its own key has the prefix and comes after
    the marker, and a key that has the bucket's path in it is cut.  So the
    listing is the list of the matching keys exactly if the prefix ends in the
    first name, no key is cut, and every key comes before the first name of
    each key that the operating system lists after it. -/

namespace VHono

open ByteString PathSegments MarkerPages

/-- The first name of a key -/
def firstSegment (key : ByteString) : ByteString := key.takeWhile (· ≠ byte '/')

theorem firstSegment_of_noSlash {name : ByteString} (h : byte '/' ∉ name) :
    firstSegment name = name := by
  rw [firstSegment, List.takeWhile_eq_self_iff]
  intro b hb
  refine decide_eq_true ?_
  rintro rfl
  exact h hb

theorem firstSegment_append {name : ByteString} (h : byte '/' ∉ name) (key : ByteString) :
    firstSegment (name ++ ascii "/" ++ key) = name := by
  have hname := firstSegment_of_noSlash h
  rw [firstSegment] at hname ⊢
  rw [List.append_assoc, List.takeWhile_append_of_pos (List.takeWhile_eq_self_iff.mp hname)]
  show name ++ List.takeWhile _ (byte '/' :: key) = name
  rw [List.takeWhile_cons_of_neg (by simp), List.append_nil]

theorem firstSegment_begins (key : ByteString) : firstSegment key <+: key :=
  List.takeWhile_prefix _

theorem not_slash_mem_firstSegment (key : ByteString) : byte '/' ∉ firstSegment key := by
  intro h
  have hne := List.mem_takeWhile_imp h
  exact absurd rfl (of_decide_eq_true hne)

/-! ## Keys -/

namespace Entries

theorem lead_of_mem_keysFrom {entries : Entries} :
    ∀ {lead k : ByteString}, k ∈ entries.keysFrom lead → lead <+: k ∧ lead ≠ k := by
  induction entries with
  | nil => intro lead k h; cases h
  | file name content mtime rest ih =>
      intro lead k h
      rcases List.mem_cons.mp h with rfl | hrest
      · exact ⟨List.prefix_append _ _, fun heq => name.plain.nonempty (List.self_eq_append_right.mp heq)⟩
      · exact ih hrest
  | dir name children rest ihChildren ihRest =>
      intro lead k h
      rcases List.mem_append.mp h with hchild | hrest
      · obtain ⟨hlead, -⟩ := ihChildren hchild
        refine ⟨(List.prefix_append _ _).trans ((List.prefix_append _ _).trans hlead), ?_⟩
        rintro rfl
        have hlength := hlead.length_le
        rw [List.length_append, List.length_append] at hlength
        have hslash : (ascii "/").length = 1 := rfl
        omega
      · exact ihRest hrest

theorem ne_nil_of_mem_keys {entries : Entries} {k : ByteString} (h : k ∈ entries.keys) : k ≠ [] :=
  fun hnil => (lead_of_mem_keysFrom h).2 hnil.symm

theorem firstSegment_below {name : EntryName} {children : Entries} {k : ByteString}
    (hk : k ∈ children.keysFrom (name.text ++ ascii "/")) : firstSegment k = name.text := by
  obtain ⟨t, rfl⟩ := (lead_of_mem_keysFrom hk).1
  exact firstSegment_append name.plain.noSlash t

/-- What a test of the first name keeps of a directory: all or nothing. -/
theorem filter_below (skips : ByteString → Bool) (name : EntryName) (children : Entries) :
    (children.keysFrom (name.text ++ ascii "/")).filter (fun k => !skips (firstSegment k))
      = if skips name.text = true then [] else children.keysFrom (name.text ++ ascii "/") := by
  split
  · next hskip =>
      refine List.filter_eq_nil_iff.mpr ?_
      intro k hk
      rw [firstSegment_below hk, hskip]
      decide
  · next hskip =>
      refine List.filter_eq_self.mpr ?_
      intro k hk
      rw [firstSegment_below hk, Bool.eq_false_iff.mpr hskip]
      rfl

/-- The survivors are the keys of some of the files, as the walk computes them. -/
theorem survivors_sublist (strip : ByteString → ByteString) (skips : ByteString → Bool)
    (entries : Entries) :
    ∀ lead, ∃ S : List ByteString, S.Sublist (entries.keysFrom lead) ∧
      entries.survivors strip skips lead = S.map strip := by
  induction entries with
  | nil => intro lead; exact ⟨[], List.nil_sublist _, rfl⟩
  | file name content mtime rest ih =>
      intro lead
      obtain ⟨S, hsub, hS⟩ := ih lead
      rw [keysFrom, survivors]
      split
      · exact ⟨S, hsub.cons _, hS⟩
      · exact ⟨(lead ++ name.text) :: S, hsub.cons_cons _, by rw [hS, List.map_cons]⟩
  | dir name children rest ihChildren ihRest =>
      intro lead
      obtain ⟨S, hsub, hS⟩ := ihChildren (lead ++ name.text ++ ascii "/")
      obtain ⟨T, hsubT, hT⟩ := ihRest lead
      rw [keysFrom, survivors]
      split
      · exact ⟨T, hsubT.trans (List.sublist_append_right _ _), hT⟩
      · exact ⟨S ++ T, hsub.append hsubT, by rw [hS, hT, List.map_append]⟩

variable {strip : ByteString → ByteString}

/-- At the top, those files whose first name is not passed over. -/
theorem survivors_top_sublist (skips : ByteString → Bool)
    (hstrip : ∀ e, byte '/' ∉ e → strip e = e) (entries : Entries) :
    ∃ S : List ByteString, S.Sublist (entries.keys.filter (fun k => !skips (firstSegment k))) ∧
      entries.survivors strip skips [] = S.map strip := by
  induction entries with
  | nil => exact ⟨[], List.nil_sublist _, rfl⟩
  | file name content mtime rest ih =>
      obtain ⟨S, hsub, hS⟩ := ih
      have hname := name.plain.noSlash
      rw [keys, keysFrom, survivors, List.nil_append, hstrip _ hname, List.filter_cons,
        firstSegment_of_noSlash hname]
      cases hskip : skips name.text with
      | true => exact ⟨S, hsub, hS⟩
      | false => exact ⟨name.text :: S, hsub.cons_cons _, by rw [List.map_cons, hstrip _ hname, ← hS]; rfl⟩
  | dir name children rest ihChildren ihRest =>
      obtain ⟨T, hsubT, hT⟩ := ihRest
      rw [keys, keysFrom, survivors, List.nil_append, hstrip _ name.plain.noSlash,
        List.filter_append, filter_below]
      cases hskip : skips name.text with
      | true => exact ⟨T, hsubT, hT⟩
      | false =>
          obtain ⟨S, hsub, hS⟩ :=
            survivors_sublist strip skips children (name.text ++ ascii "/")
          exact ⟨S ++ T, hsub.append hsubT, by rw [List.map_append, ← hS, ← hT]; rfl⟩

/-- Below a directory that is entered, nothing is passed over if no key is cut. -/
theorem survivors_all {skips : ByteString → Bool} (entries : Entries) :
    ∀ lead, (∀ t, skips (lead ++ t) = false) →
      (∀ k ∈ entries.keysFrom lead, ∀ e, e <+: k → strip e = e) →
      entries.survivors strip skips lead = entries.keysFrom lead := by
  induction entries with
  | nil => intro lead _ _; rfl
  | file name content mtime rest ih =>
      intro lead hskips hstrip
      have hkey := hstrip _ (List.mem_cons_self ..) _ (List.prefix_refl _)
      rw [keysFrom, survivors, hkey, hskips, if_neg (by decide)]
      exact congrArg (_ :: ·) (ih lead hskips (fun k hk => hstrip k (List.mem_cons_of_mem _ hk)))
  | dir name children rest ihChildren ihRest =>
      intro lead hskips hstrip
      have hrest := ihRest lead hskips (fun k hk => hstrip k (List.mem_append_right _ hk))
      have hchildren := ihChildren (lead ++ name.text ++ ascii "/")
        (fun t => by rw [List.append_assoc, List.append_assoc]; exact hskips _)
        (fun k hk => hstrip k (List.mem_append_left _ hk))
      rw [keysFrom, survivors, hrest, hchildren]
      -- the key of a directory is looked at only through the keys below it
      cases hbelow : children.keysFrom (lead ++ name.text ++ ascii "/") with
      | nil => rw [List.nil_append, ite_self]
      | cons k tail =>
          have hk : k ∈ children.keysFrom (lead ++ name.text ++ ascii "/") := by
            rw [hbelow]
            exact List.mem_cons_self ..
          have hkey := hstrip k (List.mem_append_left _ hk) (lead ++ name.text)
            ((List.prefix_append _ _).trans (lead_of_mem_keysFrom hk).1)
          rw [hkey, hskips, if_neg (by decide)]

/-- **THE WALK FILTERS BY THE FIRST NAMES** if no key that it may return is cut. -/
theorem survivors_top (skips : ByteString → Bool) (hstrip : ∀ e, byte '/' ∉ e → strip e = e)
    (hmono : ∀ e t, skips e = false → skips (e ++ t) = false) (entries : Entries) :
    (∀ k ∈ entries.keys, skips (firstSegment k) = false → ∀ e, e <+: k → strip e = e) →
      entries.survivors strip skips [] = entries.keys.filter (fun k => !skips (firstSegment k)) := by
  induction entries with
  | nil => intro _; rfl
  | file name content mtime rest ih =>
      intro hkeys
      have hname := name.plain.noSlash
      have hrest := ih (fun k hk => hkeys k (List.mem_cons_of_mem _ hk))
      rw [keys, keysFrom, survivors, List.nil_append, hstrip _ hname, List.filter_cons,
        firstSegment_of_noSlash hname, hrest]
      cases hskip : skips name.text with
      | true => rfl
      | false => rfl
  | dir name children rest ihChildren ihRest =>
      intro hkeys
      have hrest := ihRest (fun k hk => hkeys k (List.mem_append_right _ hk))
      rw [keys, keysFrom, survivors, List.nil_append, hstrip _ name.plain.noSlash,
        List.filter_append, filter_below, hrest]
      cases hskip : skips name.text with
      | true => rfl
      | false =>
          have hchildren := survivors_all children (name.text ++ ascii "/")
            (fun t => by rw [List.append_assoc]; exact hmono _ _ hskip)
            (fun k hk => hkeys k (List.mem_append_left _ hk)
              (by rw [firstSegment_below hk]; exact hskip))
          rw [hchildren]
          rfl

end Entries

/-! ## Cutting the path -/

theorem BucketDir.strip_of_noSlash (dir : BucketDir) (e : ByteString) (he : byte '/' ∉ e) :
    dir.strip e = e := by
  have hslash : byte '/' ∈ dir.path ++ ascii "/" := List.mem_append_right _ (List.mem_singleton.mpr rfl)
  rcases replaceStr_spec dir.path_ne e with ⟨-, hsame⟩ | ⟨hoccurs, -⟩
  · exact hsame
  · rw [not_containsStr_of_mem hslash he] at hoccurs
    cases hoccurs

/-- A key without the bucket's path in it is not cut, and neither is any beginning of it. -/
theorem BucketDir.strip_beginning (dir : BucketDir) {e k : ByteString} (he : e <+: k)
    (hk : containsStr k (dir.path ++ ascii "/") = false) : dir.strip e = e := by
  rcases replaceStr_spec dir.path_ne e with ⟨-, hsame⟩ | ⟨hoccurs, -⟩
  · exact hsame
  · rw [containsStr_of_part he.isInfix hoccurs] at hk
    cases hk

/-- Keys that are cut get shorter, so they are not a rearrangement of what they were. -/
theorem BucketDir.not_cut_of_perm (dir : BucketDir) {ks : List ByteString}
    (h : (ks.map dir.strip).Perm ks) : ∀ k ∈ ks, containsStr k (dir.path ++ ascii "/") = false := by
  have hsum := (h.map List.length).sum_eq
  clear h
  have hle : ∀ k, (dir.strip k).length ≤ k.length := fun k => length_replaceFrom _ k 0
  induction ks with
  | nil => intro k hk; cases hk
  | cons k ks ih =>
      rw [List.map_cons, List.map_cons, List.sum_cons, List.map_cons, List.sum_cons] at hsum
      have htail : ((ks.map dir.strip).map List.length).sum ≤ (ks.map List.length).sum := by
        rw [List.map_map]
        exact List.sum_le_sum (fun k _ => hle k)
      have hhead := hle k
      intro k' hk'
      rcases List.mem_cons.mp hk' with rfl | hmem
      · rcases replaceStr_spec dir.path_ne k' with ⟨hnone, -⟩ | ⟨-, hshort⟩
        · exact hnone
        · have hcut : (dir.strip k').length < k'.length := hshort
          omega
      · exact ih (by omega) k' hmem

/-! ## The tests of the walk -/

theorem ListOptions.skips_eq_false {options : ListOptions} {e : ByteString} :
    options.skips e = false ↔ startsWith e options.keyPrefix = true ∧
      (options.startAfter = [] ∨ precedes options.startAfter e = true) := by
  by_cases hempty : options.keyPrefix = []
  · rw [skips, hempty, startsWith_nil]
    by_cases hmarker : options.startAfter = [] <;> simp [hmarker]
  · rw [skips]
    by_cases hmarker : options.startAfter = [] <;> simp [hempty, hmarker]

theorem ListOptions.skips_append {options : ListOptions} (e t : ByteString)
    (h : options.skips e = false) : options.skips (e ++ t) = false := by
  obtain ⟨hbegins, hmarker⟩ := skips_eq_false.mp h
  refine skips_eq_false.mpr ⟨?_, ?_⟩
  · exact startsWith_iff.mpr ((startsWith_iff.mp hbegins).trans (List.prefix_append e t))
  · exact hmarker.imp id (fun hafter => precedes_append hafter t)

/-- A prefix without a slash is tested on the first name. -/
theorem startsWith_firstSegment {keyPrefix : ByteString} (h : byte '/' ∉ keyPrefix) (k : ByteString) :
    startsWith (firstSegment k) keyPrefix = startsWith k keyPrefix := by
  rw [Bool.eq_iff_iff, startsWith_iff, startsWith_iff]
  constructor
  · intro hfirst
    exact hfirst.trans (firstSegment_begins k)
  · rintro ⟨t, rfl⟩
    rw [firstSegment, List.takeWhile_append_of_pos]
    · exact List.prefix_append _ _
    · intro b hb
      refine decide_eq_true ?_
      rintro rfl
      exact h hb

/-! ## The listing -/

/-- The keys of the bucket that start with the prefix, each once. -/
def BucketDir.matching (dir : BucketDir) (keyPrefix : ByteString) : List ByteString :=
  dir.entries.keys.filter (startsWith · keyPrefix)

/-- The options of a listing without a delimiter. -/
def pageOptions (keyPrefix : ByteString) (maxKeys : Int) (marker : ByteString) : ListOptions :=
  { keyPrefix := keyPrefix, maxKeys := maxKeys, startAfter := marker }

/-- What the walk of one listing collects if nothing stops it. -/
def BucketDir.found (dir : BucketDir) (keyPrefix marker : ByteString) : List ByteString :=
  dir.entries.survivors dir.strip (pageOptions keyPrefix 0 marker).skips []

theorem BucketDir.skips_top {keyPrefix marker k : ByteString} :
    (pageOptions keyPrefix 0 marker).skips (firstSegment k) = false ↔
      startsWith (firstSegment k) keyPrefix = true ∧
        (marker = [] ∨ precedes marker (firstSegment k) = true) :=
  ListOptions.skips_eq_false

/-- Whatever the prefix is, the walk from the beginning finds no more than the matching keys,
    perhaps cut, and those of a prefix that goes past the first name not at all. -/
theorem BucketDir.found_sublist (dir : BucketDir) (keyPrefix marker : ByteString) :
    ∃ S : List ByteString, S.Sublist (dir.matching keyPrefix) ∧
      dir.found keyPrefix marker = S.map dir.strip ∧
      ∀ k ∈ S, startsWith (firstSegment k) keyPrefix = true := by
  obtain ⟨S, hsub, hS⟩ := dir.entries.survivors_top_sublist
    (pageOptions keyPrefix 0 marker).skips dir.strip_of_noSlash
  have hfirst : ∀ k ∈ S, startsWith (firstSegment k) keyPrefix = true := by
    intro k hk
    have hkeep := (List.mem_filter.mp (hsub.subset hk)).2
    exact (skips_top.mp (Bool.not_eq_true' _ ▸ hkeep)).1
  refine ⟨S, ?_, hS, hfirst⟩
  have hmatch : S.filter (startsWith · keyPrefix) = S := by
    refine List.filter_eq_self.mpr ?_
    intro k hk
    exact startsWith_iff.mpr ((startsWith_iff.mp (hfirst k hk)).trans (firstSegment_begins k))
  rw [← hmatch]
  exact (hsub.trans List.filter_sublist).filter _

/-- The relation of the markers: the first name of a key comes after the marker. -/
def pagesAfter (marker k : ByteString) : Prop := precedes marker (firstSegment k) = true

instance : DecidableRel pagesAfter :=
  fun marker k => inferInstanceAs (Decidable (precedes marker (firstSegment k) = true))

instance : IsTrans ByteString pagesAfter := by
  refine ⟨?_⟩
  intro a b c hab hbc
  obtain ⟨t, ht⟩ := firstSegment_begins b
  have hab' : precedes a b = true := by
    rw [← ht]
    exact precedes_append hab t
  exact precedes_trans hab' hbc

instance : Std.Irrefl pagesAfter := by
  refine ⟨?_⟩
  intro a haa
  obtain ⟨t, ht⟩ := firstSegment_begins a
  have hself : precedes a a = true := by
    have happend := precedes_append haa t
    rw [ht] at happend
    exact happend
  rw [precedes_irrefl] at hself
  exact nomatch hself

/-- The marker of a listing, of which the empty one is none. -/
def markerOf (marker : ByteString) : Option ByteString := if marker = [] then none else some marker

/-- With a prefix of the first name and no key cut, the walk finds the matching keys that come
    after the marker. -/
theorem BucketDir.found_eq_rest (dir : BucketDir) {keyPrefix : ByteString}
    (hflat : byte '/' ∉ keyPrefix)
    (hcut : ∀ k ∈ dir.matching keyPrefix, containsStr k (dir.path ++ ascii "/") = false)
    (marker : ByteString) :
    dir.found keyPrefix marker = rest pagesAfter (dir.matching keyPrefix) (markerOf marker) := by
  have htop := Entries.survivors_top (pageOptions keyPrefix 0 marker).skips
    dir.strip_of_noSlash ListOptions.skips_append dir.entries ?_
  · rw [found, htop, matching, markerOf]
    by_cases hmarker : marker = []
    · rw [if_pos hmarker, rest]
      refine List.filter_congr ?_
      intro k _
      rw [← startsWith_firstSegment hflat, Bool.eq_iff_iff, Bool.not_eq_true', skips_top]
      exact ⟨fun h => h.1, fun h => ⟨h, Or.inl hmarker⟩⟩
    · rw [if_neg hmarker, rest, List.filter_filter]
      refine List.filter_congr ?_
      intro k _
      rw [← startsWith_firstSegment hflat, Bool.eq_iff_iff, Bool.not_eq_true', skips_top,
        Bool.and_eq_true, decide_eq_true_iff]
      constructor
      · rintro ⟨hstart, hafter⟩
        exact ⟨hafter.resolve_left hmarker, hstart⟩
      · rintro ⟨hafter, hstart⟩
        exact ⟨hstart, Or.inr hafter⟩
  · intro k hk hskip e he
    refine dir.strip_beginning he (hcut k ?_)
    refine List.mem_filter.mpr ⟨hk, ?_⟩
    rw [← startsWith_firstSegment hflat]
    exact (skips_top.mp hskip).1

namespace LocalStorage

variable (s : LocalStorage) (bucket : ByteString) (dir : BucketDir) (keyPrefix : ByteString)

/-- **ONE LISTING** returns the beginning of what the walk finds. -/
theorem list_spec (maxKeys : Int) (marker : ByteString) :
    ∃ result, s.list {} bucket (some dir) (pageOptions keyPrefix maxKeys marker) = .ok result ∧
      result.objects.map (·.key) = (dir.found keyPrefix marker).take maxKeys.toNat ∧
      (result.isTruncated = true ↔ maxKeys ≤ (result.objects.map (·.key)).length) ∧
      (result.isTruncated = true → ∀ k, (result.objects.map (·.key)).getLast? = some k →
        result.nextMarker = k) := by
  have hkeys := s.listDirectoryRecursive_keys dir (pageOptions keyPrefix maxKeys marker) rfl
    dir.entries dir.path [] ([], []) (by rw [List.append_nil])
  rw [List.map_nil, List.nil_append, List.length_nil, Nat.sub_zero] at hkeys
  refine ⟨_, rfl, hkeys, ?_, ?_⟩
  · rw [List.length_map]
    exact decide_eq_true_iff
  · intro htruncated k hlast
    have hpos : 0 < (s.listDirectoryRecursive {} dir.path (pageOptions keyPrefix maxKeys marker)
        dir.path dir.entries ([], [])).1.length := by
      refine List.length_pos_iff.mpr ?_
      intro hnil
      have hnone : ([] : List ByteString).getLast? = some k := by
        rw [← hlast]
        exact congrArg (fun objects : List ObjectInfo => (objects.map (·.key)).getLast?) hnil.symm
      cases hnone
    show (if _ then _ else _) = k
    rw [if_pos ⟨htruncated, hpos⟩]
    rw [List.getLast?_map] at hlast
    exact congrArg (fun key : Option ByteString => key.getD []) hlast

/-- The keys that a client collects who lists page after page, each from the marker of the page
    before, until a page is not truncated. -/
inductive ListPages (maxKeys : Int) : ByteString → List ByteString → Prop
  | last {marker result}
      (h : s.list {} bucket (some dir) (pageOptions keyPrefix maxKeys marker) = .ok result)
      (hlast : result.isTruncated = false) : ListPages maxKeys marker (result.objects.map (·.key))
  | more {marker result ks}
      (h : s.list {} bucket (some dir) (pageOptions keyPrefix maxKeys marker) = .ok result)
      (hmore : result.isTruncated = true) (next : ListPages maxKeys result.nextMarker ks) :
      ListPages maxKeys marker (result.objects.map (·.key) ++ ks)

/-- A listing that may return more than there is returns the matching keys, each once, and so do
    the pages of every size. -/
def ListsExactly : Prop :=
  (∀ maxKeys : Int, maxKeys > (dir.matching keyPrefix).length →
    ∃ result, s.list {} bucket (some dir) (pageOptions keyPrefix maxKeys []) = .ok result ∧
      (result.objects.map (·.key)).Perm (dir.matching keyPrefix)) ∧
  ∀ maxKeys : Int, 1 ≤ maxKeys →
    ∃ ks, s.ListPages bucket dir keyPrefix maxKeys [] ks ∧ ks.Perm (dir.matching keyPrefix)

variable {s bucket dir keyPrefix}

theorem list_result_unique {maxKeys : Int} {marker : ByteString} {result : ListResult}
    (h : s.list {} bucket (some dir) (pageOptions keyPrefix maxKeys marker) = .ok result) :
    result.objects.map (·.key) = (dir.found keyPrefix marker).take maxKeys.toNat ∧
      (result.isTruncated = true ↔ maxKeys ≤ (result.objects.map (·.key)).length) ∧
      (result.isTruncated = true → ∀ k, (result.objects.map (·.key)).getLast? = some k →
        result.nextMarker = k) := by
  obtain ⟨result', h', hspec⟩ := s.list_spec bucket dir keyPrefix maxKeys marker
  rw [h] at h'
  cases h'
  exact hspec

theorem markerOf_key {k : ByteString} (hk : k ∈ dir.matching keyPrefix) : markerOf k = some k :=
  if_neg (Entries.ne_nil_of_mem_keys (List.mem_of_mem_filter hk))

/-- Where the walk finds what comes after the marker, listing page after page is paging. -/
theorem paged_of_listPages
    (hfound : ∀ marker, dir.found keyPrefix marker
      = rest pagesAfter (dir.matching keyPrefix) (markerOf marker))
    {maxKeys : Int} (hpos : 1 ≤ maxKeys) {marker : ByteString} {ks : List ByteString}
    (h : s.ListPages bucket dir keyPrefix maxKeys marker ks) :
    Paged pagesAfter (dir.matching keyPrefix) maxKeys.toNat (markerOf marker) ks := by
  induction h with
  | @last marker result h hlast =>
      obtain ⟨hkeys, htruncated, -⟩ := list_result_unique h
      rw [hfound marker] at hkeys
      have hshort : ¬ maxKeys ≤ (result.objects.map (·.key)).length := by
        rw [← htruncated, hlast]
        exact Bool.false_ne_true
      rw [hkeys] at hshort ⊢
      exact Paged.last (by rw [page]; omega)
  | @more marker result ks h hmore next ih =>
      obtain ⟨hkeys, htruncated, hmarker⟩ := list_result_unique h
      have hfull := htruncated.mp hmore
      obtain ⟨k, hk⟩ : ∃ k, (result.objects.map (·.key)).getLast? = some k := by
        have hne : result.objects.map (·.key) ≠ [] := List.ne_nil_of_length_pos (by omega)
        exact ⟨_, List.getLast?_eq_some_getLast hne⟩
      rw [hfound marker] at hkeys
      have hmem : k ∈ dir.matching keyPrefix := by
        have hin := List.mem_of_getLast? hk
        rw [hkeys] at hin
        exact mem_of_mem_rest (List.mem_of_mem_take hin)
      rw [hmarker hmore k hk, markerOf_key hmem] at ih
      rw [hkeys] at hfull hk ⊢
      exact Paged.more (by rw [page]; omega) hk ih

theorem listPages_of_paged
    (hfound : ∀ marker, dir.found keyPrefix marker
      = rest pagesAfter (dir.matching keyPrefix) (markerOf marker))
    {maxKeys : Int} (hpos : 1 ≤ maxKeys) {marker : Option ByteString} {ks : List ByteString}
    (h : Paged pagesAfter (dir.matching keyPrefix) maxKeys.toNat marker ks) :
    ∀ m, markerOf m = marker → s.ListPages bucket dir keyPrefix maxKeys m ks := by
  induction h with
  | @last marker hshort =>
      rintro m rfl
      obtain ⟨result, h, hkeys, htruncated, -⟩ := s.list_spec bucket dir keyPrefix maxKeys m
      rw [hfound m] at hkeys
      rw [page] at hshort ⊢
      have hnot : result.isTruncated = false := by
        refine Bool.eq_false_iff.mpr ?_
        intro htrue
        have hfull := htruncated.mp htrue
        rw [hkeys] at hfull
        omega
      rw [← hkeys]
      exact ListPages.last h hnot
  | @more marker a ks hfull ha next ih =>
      rintro m rfl
      obtain ⟨result, h, hkeys, htruncated, hmarker⟩ := s.list_spec bucket dir keyPrefix maxKeys m
      rw [hfound m] at hkeys
      rw [page] at hfull ha ⊢
      rw [← hkeys] at hfull ha ⊢
      have htrue := htruncated.mpr (by omega)
      have hmem : a ∈ dir.matching keyPrefix := by
        have hin := List.mem_of_getLast? ha
        rw [hkeys] at hin
        exact mem_of_mem_rest (List.mem_of_mem_take hin)
      refine ListPages.more h htrue (ih _ ?_)
      rw [hmarker htrue a ha, markerOf_key hmem]

/-- **LISTINGS ARE EXACT AND PAGE COMPLETELY** exactly if nothing matches, or the prefix has no
    slash, the bucket's own path occurs in none of the matching keys, and every one of them comes
    before the first name of each that is listed after it. -/
theorem listsExactly_iff (s : LocalStorage) (bucket : ByteString) (dir : BucketDir)
    (keyPrefix : ByteString) :
    s.ListsExactly bucket dir keyPrefix ↔
      dir.matching keyPrefix = [] ∨
        (byte '/' ∉ keyPrefix ∧
          (∀ k ∈ dir.matching keyPrefix, containsStr k (dir.path ++ ascii "/") = false) ∧
          (dir.matching keyPrefix).Pairwise (fun k k' => precedes k (firstSegment k') = true)) := by
  constructor
  · rintro ⟨hexact, hpages⟩
    obtain ⟨S, hsub, hS, hfirst⟩ := dir.found_sublist keyPrefix []
    obtain ⟨result, h, hperm⟩ := hexact _ (Int.lt_succ _)
    obtain ⟨hkeys, -, -⟩ := list_result_unique h
    rw [hkeys, hS, List.take_of_length_le] at hperm
    · obtain rfl : S = dir.matching keyPrefix := by
        refine hsub.eq_of_length ?_
        rw [← hperm.length_eq, List.length_map]
      have hcut := dir.not_cut_of_perm hperm
      by_cases hnil : dir.matching keyPrefix = []
      · exact Or.inl hnil
      · obtain ⟨k, hk⟩ := List.exists_mem_of_ne_nil _ hnil
        have hflat : byte '/' ∉ keyPrefix := fun hslash =>
          not_slash_mem_firstSegment k ((startsWith_iff.mp (hfirst k hk)).subset hslash)
        have hfound := dir.found_eq_rest hflat hcut
        refine Or.inr ⟨hflat, hcut, ?_⟩
        refine (paged_perm_iff pagesAfter).mp ?_
        intro n hn
        obtain ⟨ks, hlisted, hks⟩ := hpages n (by omega)
        exact ⟨ks, paged_of_listPages hfound (by omega) hlisted, hks⟩
    · rw [List.length_map]
      have hlength := hsub.length_le
      omega
  · rintro (hnil | ⟨hflat, hcut, hordered⟩)
    · have hfound : dir.found keyPrefix [] = [] := by
        obtain ⟨S, hsub, hS, -⟩ := dir.found_sublist keyPrefix []
        rw [hnil] at hsub
        rw [hS, List.sublist_nil.mp hsub, List.map_nil]
      constructor
      · intro maxKeys _
        obtain ⟨result, h, hkeys, -⟩ := s.list_spec bucket dir keyPrefix maxKeys []
        refine ⟨result, h, ?_⟩
        rw [hkeys, hfound, hnil, List.take_nil]
      · intro maxKeys hpos
        obtain ⟨result, h, hkeys, htruncated, -⟩ := s.list_spec bucket dir keyPrefix maxKeys []
        rw [hfound, List.take_nil] at hkeys
        refine ⟨result.objects.map (·.key), ListPages.last h ?_, by rw [hkeys, hnil]⟩
        refine Bool.eq_false_iff.mpr ?_
        intro htrue
        have hfull := htruncated.mp htrue
        rw [hkeys, List.length_nil] at hfull
        omega
    · have hfound := dir.found_eq_rest hflat hcut
      constructor
      · intro maxKeys hmany
        obtain ⟨result, h, hkeys, -⟩ := s.list_spec bucket dir keyPrefix maxKeys []
        refine ⟨result, h, ?_⟩
        rw [hkeys, hfound, markerOf, if_pos rfl, rest, List.take_of_length_le (by omega)]
      · intro maxKeys hpos
        obtain ⟨ks, hpaged, hperm⟩ := (paged_perm_iff pagesAfter).mpr hordered
          maxKeys.toNat (by omega)
        exact ⟨ks, listPages_of_paged hfound hpos hpaged [] (if_pos rfl), hperm⟩

/-- A bucket with the one key `a/b`. -/
def sampleBucket : BucketDir where
  path := ascii "./uploads/docs"
  entries := .dir ⟨ascii "a", ⟨by decide, by decide, by decide, by decide⟩, by decide⟩
    (.file ⟨ascii "b", ⟨by decide, by decide, by decide, by decide⟩, by decide⟩ (ascii "x") 0 .nil) .nil
  nonempty := by decide
  normal := by decide

/-- The prefix `a/b` is not met by the key `a` of the directory, so `a/b` is not listed. -/
theorem nested_prefix_lists_nothing :
    ¬ (LocalStorage.new { basePath := [ascii "uploads"] } (fun _ => []) (fun _ => none)).ListsExactly
      (ascii "docs") sampleBucket (ascii "a/b") := by
  rintro ⟨hexact, -⟩
  have hmatching : sampleBucket.matching (ascii "a/b") = [ascii "a/b"] := by decide
  have hfound : sampleBucket.found (ascii "a/b") [] = [] := by decide
  obtain ⟨result, h, hperm⟩ := hexact 2 (by rw [hmatching]; decide)
  rw [(list_result_unique h).1, hfound, hmatching, List.take_nil] at hperm
  cases hperm.length_eq

end LocalStorage

end VHono
