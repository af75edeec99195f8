import VHono.ObjectPaths

/-! # Disks that represent a map of objects

    The named objects are files, nothing is in the way of one, and every upload
    in progress has its directory with the parts that it received.  Each change
    that an operation makes of the disk is a change of the map. -/

namespace VHono

open ByteString PathSegments FileTrees

/-- The disk below the base path holds the map: the named objects, and the uploads, of which `ids`
    may be started. -/
structure Represents (base : Path) (named : List (ByteString × ByteString))
    (ids : ByteString → Prop) (d : Disk) (store : ObjectStore) : Prop where
  objects : ∀ o ∈ named, d.content (objectPath base o) = store.objects o.1 o.2
  noDir   : ∀ o ∈ named, d.node (objectPath base o) ≠ some .dir
  way     : ∀ o ∈ named, ∀ p, p <+: objectPath base o → p ≠ objectPath base o → d.content p = none
  uploads : ∀ p, p <+: uploadPath base [] → d.content p = none
  parts   : ∀ id parts, store.uploads id = some parts →
    d.node (uploadPath base [id]) = some .dir ∧
      ∀ n, d.node (uploadPath base [id, intStr n]) = (parts n).map .file
  fresh   : ∀ id, ids id → store.uploads id = none → ∀ p, uploadPath base [id] <+: p → d.node p = none

namespace Represents

variable {base : Path} {named : List (ByteString × ByteString)} {ids : ByteString → Prop}
  {d : Disk} {store : ObjectStore} {o : ByteString × ByteString}

/-- What is not a directory is a file or nothing. -/
theorem node_object (h : Represents base named ids d store) (ho : o ∈ named) :
    d.node (objectPath base o) = (store.objects o.1 o.2).map .file := by
  rw [← h.objects o ho]
  cases hnode : d.node (objectPath base o) with
  | none => rw [Tree.content, hnode]; rfl
  | some n =>
      cases n with
      | file c => rw [Tree.content, hnode]; rfl
      | dir => exact absurd hnode (h.noDir o ho)

/-! ## Directories -/

/-- The directories on the way to an object. -/
theorem makeDirs (h : Represents base named ids d store) (hsep : SeparateObjects named) (ho : o ∈ named)
    {p : Path} (hp : p <+: objectPath base o) (hne : p ≠ objectPath base o) :
    Represents base named ids (d.makeDirs p) store := by
  have hobject : ∀ o' ∈ named, ¬ objectPath base o' <+: p := by
    intro o' ho' hbelow
    obtain rfl := hsep.object_prefix ho' ho (hbelow.trans hp)
    exact hne (hp.eq_of_length_le hbelow.length_le)
  have hupload : ∀ path, ¬ uploadPath base path <+: p :=
    fun path hbelow => hsep.not_upload_prefix ho path (hbelow.trans hp)
  refine ⟨?_, ?_, ?_, ?_, ?_, ?_⟩
  · intro o' ho'
    rw [Tree.content_makeDirs]
    exact h.objects o' ho'
  · intro o' ho'
    rw [Tree.node_makeDirs_of_not_prefix d (hobject o' ho')]
    exact h.noDir o' ho'
  · intro o' ho' q hq hqne
    rw [Tree.content_makeDirs]
    exact h.way o' ho' q hq hqne
  · intro q hq
    rw [Tree.content_makeDirs]
    exact h.uploads q hq
  · intro id parts hparts
    obtain ⟨hdir, hfiles⟩ := h.parts id parts hparts
    refine ⟨?_, fun n => ?_⟩
    · rw [Tree.node_makeDirs_of_not_prefix d (hupload _)]
      exact hdir
    · rw [Tree.node_makeDirs_of_not_prefix d (hupload _)]
      exact hfiles n
  · intro id hid hnone q hq
    have hqp : ¬ q <+: p := fun hbelow => hupload _ (hq.trans hbelow)
    rw [Tree.node_makeDirs_of_not_prefix d hqp]
    exact h.fresh id hid hnone q hq

/-- The way to an object is open. -/
theorem way_open (h : Represents base named ids d store) (ho : o ∈ named) {p : Path}
    (hp : p <+: objectPath base o) (hne : p ≠ objectPath base o) :
    ∀ q, q <+: p → d.content q = none := by
  intro q hq
  refine h.way o ho q (hq.trans hp) (fun heq => hne ?_)
  exact hp.eq_of_length_le (heq ▸ hq.length_le)

/-- The directory of a new upload. -/
theorem start (h : Represents base named ids d store) (hsep : SeparateObjects named) {id : ByteString}
    (hid : ids id) (hfresh : store.uploads id = none) :
    (∀ p, p <+: uploadPath base [id] → d.content p = none) ∧
      Represents base named ids (d.makeDirs (uploadPath base [id]))
        (store.setUpload id (some fun _ => none)) := by
  have hway : ∀ p, p <+: uploadPath base [id] → d.content p = none := by
    intro p hp
    have hsplit : uploadPath base [id] = uploadPath base [] ++ [id] := by
      rw [uploadPath, uploadPath, List.append_assoc]
      rfl
    rcases List.prefix_concat_iff.mp (hsplit ▸ hp) with heq | hbelow
    · rw [Tree.content, h.fresh id hid hfresh p (by rw [heq, ← hsplit])]
    · exact h.uploads p hbelow
  refine ⟨hway, ?_, ?_, ?_, ?_, ?_, ?_⟩
  · intro o ho
    rw [Tree.content_makeDirs]
    exact h.objects o ho
  · intro o ho
    rw [Tree.node_makeDirs_of_not_prefix d (hsep.not_prefix_upload ho _)]
    exact h.noDir o ho
  · intro o ho q hq hne
    rw [Tree.content_makeDirs]
    exact h.way o ho q hq hne
  · intro q hq
    rw [Tree.content_makeDirs]
    exact h.uploads q hq
  · intro id' parts hparts
    have hlonger : ∀ n, ¬ uploadPath base [id', intStr n] <+: uploadPath base [id] := by
      intro n hbelow
      exact absurd (uploadPath_prefix_iff.mp hbelow).length_le (by decide : ¬ 2 ≤ 1)
    by_cases heq : id' = id
    · subst heq
      have hnew : (some fun _ => none) = some parts :=
        (store.setUpload_self id' _).symm.trans hparts
      rw [← Option.some.inj hnew]
      refine ⟨Tree.isDir_iff.mp (Tree.isDir_makeDirs hway (List.prefix_refl _)), fun n => ?_⟩
      rw [Tree.node_makeDirs_of_not_prefix d (hlonger n)]
      exact h.fresh id' hid hfresh _ (uploadPath_prefix_iff.mpr (List.prefix_append [id'] [intStr n]))
    · have hold : store.uploads id' = some parts :=
        (store.setUpload_other _ heq).symm.trans hparts
      obtain ⟨hdir, hfiles⟩ := h.parts id' parts hold
      refine ⟨?_, fun n => ?_⟩
      · rw [Tree.node_makeDirs, if_neg (fun hand => by rw [hdir] at hand; cases hand.2)]
        exact hdir
      · rw [Tree.node_makeDirs_of_not_prefix d (hlonger n)]
        exact hfiles n
  · intro id' hid' hnone q hq
    obtain ⟨hne, hold⟩ := ObjectStore.setUpload_before (Option.some_ne_none _) hnone
    have hqp : ¬ q <+: uploadPath base [id] := by
      intro hbelow
      have hids := uploadPath_prefix_iff.mp (hq.trans hbelow)
      exact hne (List.cons.inj (hids.eq_of_length rfl)).1
    rw [Tree.node_makeDirs_of_not_prefix d hqp]
    exact h.fresh id' hid' hold q hq

/-! ## Objects -/

/-- An object's file written or removed, and nothing else. -/
theorem replace (h : Represents base named ids d store) (hsep : SeparateObjects named) (ho : o ∈ named)
    {d' : Disk} {content : Option ByteString}
    (hhere : d'.node (objectPath base o) = content.map .file)
    (helse : ∀ q, q ≠ objectPath base o → d'.node q = d.node q) :
    Represents base named ids d' (store.setObject o.1 o.2 content) := by
  have hother : ∀ o' ∈ named, o' ≠ o → objectPath base o' ≠ objectPath base o :=
    fun o' ho' hne heq => hne (hsep.object_prefix ho' ho ⟨[], (List.append_nil _).trans heq⟩)
  have hupload : ∀ path, uploadPath base path ≠ objectPath base o :=
    fun path heq => hsep.not_upload_prefix ho path ⟨[], (List.append_nil _).trans heq⟩
  have hhere' : d'.content (objectPath base o) = content := by
    rw [Tree.content, hhere]
    cases content <;> rfl
  refine ⟨?_, ?_, ?_, ?_, ?_, ?_⟩
  · intro o' ho'
    show _ = if o'.1 = o.1 ∧ o'.2 = o.2 then content else store.objects o'.1 o'.2
    by_cases heq : o' = o
    · rw [heq, if_pos ⟨rfl, rfl⟩]
      exact hhere'
    · rw [if_neg (fun hand => heq (Prod.ext hand.1 hand.2)),
        Tree.content_congr (helse _ (hother o' ho' heq))]
      exact h.objects o' ho'
  · intro o' ho'
    by_cases heq : o' = o
    · rw [heq, hhere]
      cases content <;> rintro ⟨⟩
    · rw [helse _ (hother o' ho' heq)]
      exact h.noDir o' ho'
  · intro o' ho' q hq hne
    have hqo : q ≠ objectPath base o := by
      rintro rfl
      exact hne (congrArg _ (hsep.object_prefix ho ho' hq))
    rw [Tree.content_congr (helse q hqo)]
    exact h.way o' ho' q hq hne
  · intro q hq
    have hqo : q ≠ objectPath base o := by
      rintro rfl
      exact hsep.not_prefix_upload ho _ hq
    rw [Tree.content_congr (helse q hqo)]
    exact h.uploads q hq
  · intro id parts hparts
    obtain ⟨hdir, hfiles⟩ := h.parts id parts hparts
    refine ⟨?_, fun n => ?_⟩
    · rw [helse _ (hupload _)]
      exact hdir
    · rw [helse _ (hupload _)]
      exact hfiles n
  · intro id hid hnone q hq
    have hqo : q ≠ objectPath base o := by
      rintro rfl
      exact hsep.not_upload_prefix ho _ hq
    rw [helse q hqo]
    exact h.fresh id hid hnone q hq

theorem put (h : Represents base named ids d store) (hsep : SeparateObjects named) (ho : o ∈ named)
    (data : ByteString) :
    Represents base named ids (d.set (objectPath base o) (.file data))
      (store.setObject o.1 o.2 (some data)) := by
  refine h.replace hsep ho ?_ (fun q hq => ?_)
  · rw [Tree.node_set d objectPath_ne_nil, if_pos rfl]
    rfl
  · rw [Tree.node_set d objectPath_ne_nil, if_neg hq]

theorem erase (h : Represents base named ids d store) (hsep : SeparateObjects named) (ho : o ∈ named) :
    Represents base named ids ⟨d.entries.erase (objectPath base o)⟩
      (store.setObject o.1 o.2 none) := by
  refine h.replace hsep ho ?_ (fun q hq => ?_)
  · rw [Tree.node_erase d objectPath_ne_nil, if_pos rfl]
    rfl
  · rw [Tree.node_erase d objectPath_ne_nil, if_neg hq]

/-! ## Uploads -/

/-- A part received. -/
theorem receive (h : Represents base named ids d store) (hsep : SeparateObjects named) {id : ByteString}
    {parts : Int → Option ByteString} (hid : store.uploads id = some parts) (n : Int)
    (data : ByteString) :
    Represents base named ids (d.set (uploadPath base [id, intStr n]) (.file data))
      (store.setUpload id (some (Function.update parts n (some data)))) := by
  have helse : ∀ q, q ≠ uploadPath base [id, intStr n] →
      (d.set (uploadPath base [id, intStr n]) (.file data)).node q = d.node q := by
    intro q hq
    rw [Tree.node_set d uploadPath_ne_nil, if_neg hq]
  have hobject : ∀ o ∈ named, ∀ q, q <+: objectPath base o → q ≠ uploadPath base [id, intStr n] := by
    rintro o ho q hq rfl
    exact hsep.not_upload_prefix ho _ hq
  refine ⟨?_, ?_, ?_, ?_, ?_, ?_⟩
  · intro o ho
    rw [Tree.content_congr (helse _ (hobject o ho _ (List.prefix_refl _)))]
    exact h.objects o ho
  · intro o ho
    rw [helse _ (hobject o ho _ (List.prefix_refl _))]
    exact h.noDir o ho
  · intro o ho q hq hne
    rw [Tree.content_congr (helse q (hobject o ho q hq))]
    exact h.way o ho q hq hne
  · intro q hq
    have hqo : q ≠ uploadPath base [id, intStr n] := by
      rintro rfl
      exact absurd (uploadPath_prefix_iff.mp hq).length_le (by decide : ¬ 2 ≤ 0)
    rw [Tree.content_congr (helse q hqo)]
    exact h.uploads q hq
  · intro id' parts' hparts
    have hdirne : uploadPath base [id'] ≠ uploadPath base [id, intStr n] :=
      fun heq => List.cons_ne_nil _ _ (List.cons.inj (uploadPath_inj heq)).2.symm
    by_cases heq : id' = id
    · subst heq
      have hnew : some (Function.update parts n (some data)) = some parts' :=
        (store.setUpload_self id' _).symm.trans hparts
      obtain ⟨hdir, hfiles⟩ := h.parts id' parts hid
      rw [← Option.some.inj hnew]
      refine ⟨(helse _ hdirne).trans hdir, fun m => ?_⟩
      rw [Tree.node_set d uploadPath_ne_nil]
      by_cases hm : m = n
      · rw [hm, if_pos rfl, Function.update_self]
        rfl
      · have hpath : uploadPath base [id', intStr m] ≠ uploadPath base [id', intStr n] := by
          intro hpaths
          have htail := (List.cons.inj (uploadPath_inj hpaths)).2
          exact hm (intStr_injective (List.cons.inj htail).1)
        rw [if_neg hpath, Function.update_of_ne hm]
        exact hfiles m
    · have hold : store.uploads id' = some parts' :=
        (store.setUpload_other _ heq).symm.trans hparts
      obtain ⟨hdir, hfiles⟩ := h.parts id' parts' hold
      refine ⟨(helse _ hdirne).trans hdir, fun m => ?_⟩
      rw [helse _ (fun hpaths => heq (List.cons.inj (uploadPath_inj hpaths)).1)]
      exact hfiles m
  · intro id' hid' hnone q hq
    obtain ⟨hne, hold⟩ := ObjectStore.setUpload_before (Option.some_ne_none _) hnone
    have hqo : q ≠ uploadPath base [id, intStr n] := by
      rintro rfl
      obtain ⟨rest, hrest⟩ := uploadPath_prefix_iff.mp hq
      exact hne (List.cons.inj hrest).1
    rw [helse q hqo]
    exact h.fresh id' hid' hold q hq

/-- An upload's directory removed with all parts. -/
theorem finish (h : Represents base named ids d store) (hsep : SeparateObjects named) (id : ByteString) :
    Represents base named ids (d.without (uploadPath base [id])) (store.setUpload id none) := by
  have hnode : ∀ q, (d.without (uploadPath base [id])).node q
      = if uploadPath base [id] <+: q then none else d.node q :=
    fun q => Tree.node_without d uploadPath_ne_nil q
  have helse : ∀ q, ¬ uploadPath base [id] <+: q →
      (d.without (uploadPath base [id])).node q = d.node q := fun q hq => by rw [hnode, if_neg hq]
  have hcontent : ∀ q, d.content q = none →
      (d.without (uploadPath base [id])).content q = none := by
    intro q hq
    by_cases hbelow : uploadPath base [id] <+: q
    · rw [Tree.content, hnode, if_pos hbelow]
    · rw [Tree.content_congr (helse q hbelow)]
      exact hq
  have hobject : ∀ o ∈ named, ¬ uploadPath base [id] <+: objectPath base o :=
    fun o ho => hsep.not_upload_prefix ho _
  refine ⟨?_, ?_, ?_, ?_, ?_, ?_⟩
  · intro o ho
    rw [Tree.content_congr (helse _ (hobject o ho))]
    exact h.objects o ho
  · intro o ho
    rw [helse _ (hobject o ho)]
    exact h.noDir o ho
  · intro o ho q hq hne
    exact hcontent q (h.way o ho q hq hne)
  · intro q hq
    exact hcontent q (h.uploads q hq)
  · intro id' parts hparts
    obtain ⟨hne, hold⟩ := ObjectStore.setUpload_before (Option.some_ne_none _).symm hparts
    obtain ⟨hdir, hfiles⟩ := h.parts id' parts hold
    have hapart : ∀ path, ¬ uploadPath base [id] <+: uploadPath base (id' :: path) := by
      intro path hbelow
      obtain ⟨rest, hrest⟩ := uploadPath_prefix_iff.mp hbelow
      exact hne (List.cons.inj hrest).1.symm
    exact ⟨(helse _ (hapart _)).trans hdir, fun n => (helse _ (hapart _)).trans (hfiles n)⟩
  · intro id' hid' hnone q hq
    by_cases hbelow : uploadPath base [id] <+: q
    · rw [hnode, if_pos hbelow]
    · have hne : id' ≠ id := by
        rintro rfl
        exact hbelow hq
      have hold : store.uploads id' = none := (store.setUpload_other _ hne).symm.trans hnone
      rw [helse q hbelow]
      exact h.fresh id' hid' hold q hq

end Represents

end VHono
