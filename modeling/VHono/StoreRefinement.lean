import VHono.ObjectDisks

/-! # The local storage is a map of objects

    Run on a disk, every operation answers as it does on the map and leaves a
    disk that represents the map it leaves there.  So does every sequence of
    operations, however uploads, parts, copies and deletions interleave. -/

namespace VHono

open ByteString PathSegments FileTrees MachineRuns

/-! ## Runs of the parts of an operation -/

namespace OsProgram

variable {ρ : Type} {os : OsRest} {cwd : Path} {d d' : Disk}

theorem run_ask (c : OsCall) (next : c.Answer → OsProgram ρ) :
    OsProgram.run os cwd (.ask c next) d
      = (next (c.answer os cwd d).1).run os cwd (c.answer os cwd d).2 := rfl

theorem run_effect {e : OsEffect} (h : e.apply cwd d = some d') (rest : OsProgram ρ) :
    OsProgram.run os cwd (.ask (.effect e) fun _ => rest) d = rest.run os cwd d' := by
  refine (run_ask _ _).trans ?_
  rw [OsCall.answer, h]

theorem run_attempt {e : OsEffect} (h : e.apply cwd d = some d') (failed : ByteString → ρ)
    (rest : OsProgram ρ) : (attempt e failed rest).run os cwd d = rest.run os cwd d' := by
  have hanswer : (OsCall.effect e).answer os cwd d = ((.ok () : Except ByteString Unit), d') := by
    rw [OsCall.answer, h]
    rfl
  refine (run_ask _ _).trans ?_
  rw [hanswer]

theorem run_ensureParent {path : ByteString} (hdot : dirOf path ≠ ascii ".")
    (h : d.mkdirAll (resolveText cwd (dirOf path)) = some d') (failed : ByteString → ρ)
    (rest : OsProgram ρ) : (ensureParent path failed rest).run os cwd d = rest.run os cwd d' := by
  rw [ensureParent, if_pos ⟨dirOf_ne_nil path, hdot⟩]
  refine run_attempt ?_ failed rest
  exact h

theorem run_mustExist (path : ByteString) (missing : ρ) (rest : OsProgram ρ) :
    (mustExist path missing rest).run os cwd d
      = match d.node (resolveText cwd path) with
        | none => (missing, d)
        | some _ => rest.run os cwd d := by
  refine (run_ask _ _).trans ?_
  show OsProgram.run os cwd (if (d.node (resolveText cwd path)).isSome = true then rest
    else .done missing) d = _
  cases d.node (resolveText cwd path) <;> rfl

theorem run_readBytes_some {path data : ByteString} (h : d.content (resolveText cwd path) = some data)
    (failed : ByteString → ρ) (rest : ByteString → OsProgram ρ) :
    (readBytes path failed rest).run os cwd d = (rest data).run os cwd d := by
  have hanswer : (OsCall.readBytes path).answer os cwd d
      = ((.ok data : Except ByteString ByteString), d) := by
    rw [OsCall.answer, h]
    rfl
  refine (run_ask _ _).trans ?_
  rw [hanswer]

theorem run_readBytes_none {path : ByteString} (h : d.content (resolveText cwd path) = none)
    (failed : ByteString → ρ) (rest : ByteString → OsProgram ρ) :
    (readBytes path failed rest).run os cwd d = (failed (os.message (.readBytes path)), d) := by
  have hanswer : (OsCall.readBytes path).answer os cwd d
      = ((.error (os.message (.readBytes path)) : Except ByteString ByteString), d) := by
    rw [OsCall.answer, h]
    rfl
  refine (run_ask _ _).trans ?_
  rw [hanswer]
  rfl

end OsProgram

namespace ObjectStore

theorem concatenation_nil (parts : Int → Option ByteString) : concatenation parts [] = .ok [] := rfl

theorem concatenation_cons (parts : Int → Option ByteString) (part : PartInfo)
    (listed : List PartInfo) :
    concatenation parts (part :: listed)
      = match parts part.partNumber with
        | none => .error part.partNumber
        | some body => (concatenation parts listed).map (body ++ ·) := by
  rw [concatenation, List.find?_cons]
  cases hpart : parts part.partNumber with
  | none => rfl
  | some body =>
      rw [concatenation]
      dsimp only [Option.isNone_some]
      cases listed.find? (fun part => (parts part.partNumber).isNone) with
      | some missing => rfl
      | none =>
          show Except.ok ((parts part.partNumber).getD [] ++ _) = _
          rw [hpart]
          rfl

end ObjectStore

/-! ## Storage and map -/

/-- The storage and its disk represent the map. -/
structure Simulates (config : DiskConfig) (md5 : ByteString → ByteString) (cwd : Path)
    (named : List (ByteString × ByteString)) (ids : ByteString → Prop)
    (state : DiskStorage × Disk) (store : ObjectStore) : Prop where
  setting : state.1.config = config
  digest  : state.1.md5 = md5
  table   : ∀ id, (state.1.multipartUploads.get? id).isSome = (store.uploads id).isSome
  disk    : Represents (resolveText cwd config.basePath) named ids state.2 store

namespace DiskStorage

variable (os : OsRest) {cwd : Path} {named : List (ByteString × ByteString)} {ids : ByteString → Prop}
  {s : DiskStorage} {d : Disk} {store : ObjectStore} {bucket key : ByteString} {ρ : Type}

theorem run_ensureBucket (h : Represents (s.base cwd) named ids d store) (hsep : SeparateObjects named)
    (ho : (bucket, key) ∈ named) :
    ∃ d', Represents (s.base cwd) named ids d' store ∧ (∀ p, d'.content p = d.content p) ∧
      ∀ (failed : ByteString → ρ) (rest : OsProgram ρ),
        (s.ensureBucket bucket failed rest).run os cwd d = rest.run os cwd d' := by
  by_cases hcreate : s.config.createDirs = true
  · obtain ⟨hbelow, hne⟩ := resolve_bucketPath (s := s) cwd (hsep.plain _ ho)
    refine ⟨d.makeDirs (resolveText cwd (s.getBucketPath bucket)),
      h.makeDirs hsep ho hbelow hne, Tree.content_makeDirs d _, ?_⟩
    intro failed rest
    rw [ensureBucket, if_pos hcreate]
    refine OsProgram.run_attempt ?_ failed rest
    exact Tree.mkdirAll_eq (h.way_open ho hbelow hne)
  · refine ⟨d, h, fun _ => rfl, fun failed rest => ?_⟩
    rw [ensureBucket, if_neg hcreate]

theorem run_parent (h : Represents (s.base cwd) named ids d store) (hsep : SeparateObjects named)
    (ho : (bucket, key) ∈ named) :
    ∃ d', Represents (s.base cwd) named ids d' store ∧ (∀ p, d'.content p = d.content p) ∧
      d'.isDir (objectPath (s.base cwd) (bucket, key)).dropLast = true ∧
      ∀ (failed : ByteString → ρ) (rest : OsProgram ρ),
        (OsProgram.ensureParent (s.getFullPath bucket key) failed rest).run os cwd d
          = rest.run os cwd d' := by
  obtain ⟨hdot, hparent⟩ := resolve_parent (s := s) cwd (hsep.plain _ ho)
  have hbelow : (objectPath (s.base cwd) (bucket, key)).dropLast
      <+: objectPath (s.base cwd) (bucket, key) := List.dropLast_prefix _
  have hne : (objectPath (s.base cwd) (bucket, key)).dropLast
      ≠ objectPath (s.base cwd) (bucket, key) := by
    intro heq
    have hlength := congrArg List.length heq
    have hpos := List.length_pos_of_ne_nil (objectPath_ne_nil
      (o := (bucket, key)) : objectPath (s.base cwd) _ ≠ [])
    rw [List.length_dropLast] at hlength
    omega
  have hopen := h.way_open ho hbelow hne
  refine ⟨d.makeDirs (objectPath (s.base cwd) (bucket, key)).dropLast,
    h.makeDirs hsep ho hbelow hne, Tree.content_makeDirs d _,
    Tree.isDir_makeDirs hopen (List.prefix_refl _), ?_⟩
  intro failed rest
  refine OsProgram.run_ensureParent hdot ?_ failed rest
  rw [hparent]
  exact Tree.mkdirAll_eq hopen

/-- **STORING** an object: its directory made and its file written. -/
theorem run_store (h : Represents (s.base cwd) named ids d store) (hsep : SeparateObjects named)
    (ho : (bucket, key) ∈ named) (data : ByteString) :
    ∃ d', Represents (s.base cwd) named ids d' (store.setObject bucket key (some data)) ∧
      ∀ (failed failed' : ByteString → ρ) (rest : OsProgram ρ),
        (OsProgram.ensureParent (s.getFullPath bucket key) failed
          (OsProgram.attempt (.writeFileArray (s.getFullPath bucket key) data) failed'
            rest)).run os cwd d = rest.run os cwd d' := by
  obtain ⟨d₁, h₁, -, hdir, hrun⟩ := run_parent os h hsep ho
  refine ⟨_, h₁.put hsep ho data, fun failed failed' rest => ?_⟩
  rw [hrun]
  refine OsProgram.run_attempt ?_ failed' rest
  rw [OsEffect.apply, resolve_objectPath _ (hsep.plain _ ho)]
  exact Tree.write_eq hdir (h₁.noDir _ ho) data

theorem run_upload (h : Represents (s.base cwd) named ids d store) (hsep : SeparateObjects named)
    (ho : (bucket, key) ∈ named) (data : ByteString) :
    ∃ d', Represents (s.base cwd) named ids d' (store.setObject bucket key (some data)) ∧
      (s.upload bucket key data).run os cwd d
        = (.ok ⟨key, ObjectStore.etagOf s.md5 data, data.length⟩, d') := by
  obtain ⟨d₁, h₁, -, hbucket⟩ := run_ensureBucket os h hsep ho
  obtain ⟨d₂, h₂, hstore⟩ := run_store os h₁ hsep ho data
  refine ⟨d₂, h₂, ?_⟩
  rw [upload, hbucket, hstore]
  rfl

theorem run_download (h : Represents (s.base cwd) named ids d store) (hsep : SeparateObjects named)
    (ho : (bucket, key) ∈ named) :
    (s.download bucket key).run os cwd d
      = (match store.objects bucket key with
          | none => objectMissing bucket key
          | some data => .ok data, d) := by
  have hpath := resolve_objectPath (s := s) cwd (hsep.plain _ ho)
  have hnode := h.node_object ho
  have hcontent := h.objects _ ho
  rw [download, OsProgram.run_mustExist, hpath, hnode]
  dsimp only at hcontent ⊢
  cases hobject : store.objects bucket key with
  | none => rfl
  | some data =>
      rw [hobject] at hcontent
      exact OsProgram.run_readBytes_some (hpath ▸ hcontent) _ _

theorem run_delete (h : Represents (s.base cwd) named ids d store) (hsep : SeparateObjects named)
    (ho : (bucket, key) ∈ named) :
    match store.objects bucket key with
    | none => (s.delete bucket key).run os cwd d = (objectMissing bucket key, d)
    | some _ => ∃ d', Represents (s.base cwd) named ids d' (store.setObject bucket key none) ∧
        (s.delete bucket key).run os cwd d = (.ok (), d') := by
  have hpath := resolve_objectPath (s := s) cwd (hsep.plain _ ho)
  have hnode := h.node_object ho
  have hcontent := h.objects _ ho
  have hrun : (s.delete bucket key).run os cwd d = _ := OsProgram.run_mustExist _ _ _
  rw [hpath, hnode] at hrun
  dsimp only at hcontent hrun
  cases hobject : store.objects bucket key with
  | none =>
      rw [hobject] at hrun
      exact hrun
  | some data =>
      rw [hobject] at hrun hcontent
      refine ⟨_, h.erase hsep ho, hrun.trans (OsProgram.run_attempt ?_ _ _)⟩
      rw [OsEffect.apply, hpath]
      exact Tree.remove_eq hcontent

theorem run_objectExists (h : Represents (s.base cwd) named ids d store) (hsep : SeparateObjects named)
    (ho : (bucket, key) ∈ named) :
    (s.objectExists bucket key).run os cwd d = (.ok (store.objects bucket key).isSome, d) := by
  have hpath := resolve_objectPath (s := s) cwd (hsep.plain _ ho)
  have hnode := h.node_object ho
  have hcontent := h.objects _ ho
  dsimp only at hcontent
  refine (OsProgram.run_ask _ _).trans ?_
  show OsProgram.run os cwd (if (d.node (resolveText cwd (s.getFullPath bucket key))).isSome = true
    then _ else _) d = _
  rw [hpath, hnode]
  dsimp only
  cases hobject : store.objects bucket key with
  | none => rfl
  | some data =>
      rw [hobject] at hcontent
      show (Except.ok (d.content (resolveText cwd (s.getFullPath bucket key))).isSome, d) = _
      rw [hpath, hcontent]

theorem run_copy {srcBucket srcKey dstBucket dstKey : ByteString}
    (h : Represents (s.base cwd) named ids d store) (hsep : SeparateObjects named)
    (hsrc : (srcBucket, srcKey) ∈ named) (hdst : (dstBucket, dstKey) ∈ named) :
    match store.objects srcBucket srcKey with
    | none => (s.copy srcBucket srcKey dstBucket dstKey).run os cwd d
        = (objectMissing srcBucket srcKey, d)
    | some data => ∃ d',
        Represents (s.base cwd) named ids d' (store.setObject dstBucket dstKey (some data)) ∧
        (s.copy srcBucket srcKey dstBucket dstKey).run os cwd d
          = (.ok ⟨dstKey, ObjectStore.etagOf s.md5 data, data.length⟩, d') := by
  have hpath := resolve_objectPath (s := s) cwd (hsep.plain _ hsrc)
  have htarget := resolve_objectPath (s := s) cwd (hsep.plain _ hdst)
  have hnode := h.node_object hsrc
  have hcontent := h.objects _ hsrc
  have hrun : (s.copy srcBucket srcKey dstBucket dstKey).run os cwd d = _ :=
    OsProgram.run_mustExist _ _ _
  rw [hpath, hnode] at hrun
  dsimp only at hcontent hrun
  cases hobject : store.objects srcBucket srcKey with
  | none =>
      rw [hobject] at hrun
      exact hrun
  | some data =>
      rw [hobject] at hrun hcontent
      obtain ⟨d₁, h₁, hsame₁, hbucket⟩ := run_ensureBucket os h hsep hdst
      obtain ⟨d₂, h₂, hsame₂, hdir, hparent⟩ := run_parent os h₁ hsep hdst
      have hput := h₂.put hsep hdst data
      refine ⟨_, hput, hrun.trans ?_⟩
      dsimp only [Option.map_some]
      rw [hbucket, hparent]
      refine (OsProgram.run_attempt (?_ : _ = some (d₂.set
        (objectPath (s.base cwd) (dstBucket, dstKey)) (.file data))) _ _).trans
        ((OsProgram.run_readBytes_some (?_ : _ = some data) _ _).trans rfl)
      · rw [OsEffect.apply, hpath, htarget, Tree.copy, hsame₂, hsame₁, hcontent]
        exact Tree.write_eq hdir (h₂.noDir _ hdst) data
      · rw [htarget, hput.objects _ hdst]
        exact if_pos ⟨rfl, rfl⟩

/-! ## Uploads -/

/-- **THE LOOP** over the parts reads what the upload has received. -/
theorem run_readParts {id : EntryName} {parts : Int → Option ByteString}
    (hparts : ∀ n, d.node (uploadPath (s.base cwd) [id.text, intStr n]) = (parts n).map .file)
    (missing : Int → ρ) (rest : ByteString → OsProgram ρ) (listed : List PartInfo) :
    ∀ before, (s.readParts id.text missing rest listed before).run os cwd d
      = match ObjectStore.concatenation parts listed with
        | .error n => (missing n, d)
        | .ok data => (rest (before ++ data)).run os cwd d := by
  induction listed with
  | nil =>
      intro before
      rw [ObjectStore.concatenation_nil, readParts]
      dsimp only
      rw [List.append_nil]
  | cons part listed ih =>
      intro before
      have hnode := hparts part.partNumber
      rw [readParts, ObjectStore.concatenation_cons]
      cases hpart : parts part.partNumber with
      | none =>
          rw [hpart] at hnode
          refine OsProgram.run_readBytes_none ?_ _ _
          rw [resolve_partPath, Tree.content, hnode]
          rfl
      | some body =>
          rw [hpart] at hnode
          have hcontent : d.content (resolveText cwd (s.partPath id.text part.partNumber))
              = some body := by
            rw [resolve_partPath]
            exact Tree.content_eq_some.mpr hnode
          rw [OsProgram.run_readBytes_some hcontent, ih]
          cases ObjectStore.concatenation parts listed with
          | error n => rfl
          | ok data =>
              show (rest (before ++ body ++ data)).run os cwd d = (rest (before ++ (body ++ data))).run os cwd d
              rw [List.append_assoc]

theorem run_initMultipart (h : Represents (s.base cwd) named ids d store) (hsep : SeparateObjects named)
    (ho : (bucket, key) ∈ named) {now : Int} {random : Option ByteString}
    (hid : ids (LocalStorage.generateUploadId now random))
    (hfresh : store.uploads (LocalStorage.generateUploadId now random) = none)
    (contentType : ByteString) :
    ∃ d', Represents (s.base cwd) named ids d'
        (store.setUpload (LocalStorage.generateUploadId now random) (some fun _ => none)) ∧
      (s.initMultipart now random bucket key contentType).run os cwd d
        = ((s.track (LocalStorage.generateUploadId now random) ⟨bucket, key, contentType, .empty⟩
            ⟨newUploadId now random, rfl⟩,
          .ok (LocalStorage.generateUploadId now random)), d') := by
  obtain ⟨d₁, h₁, -, hbucket⟩ := run_ensureBucket os h hsep ho
  obtain ⟨hway, hstarted⟩ := h₁.start hsep hid hfresh
  refine ⟨_, hstarted, ?_⟩
  rw [initMultipart, hbucket]
  refine OsProgram.run_attempt ?_ _ _
  have htemp : resolveText cwd (s.tempDir (newUploadId now random).text)
      = uploadPath (s.base cwd) [LocalStorage.generateUploadId now random] :=
    resolve_tempDir cwd (newUploadId now random)
  rw [OsEffect.apply, htemp]
  exact Tree.mkdirAll_eq hway

/-- What the table of the uploads says after an operation of an upload. -/
def TableAfter (s s' : DiskStorage) (uploadId : ByteString) (there : Bool) : Prop :=
  s'.config = s.config ∧ s'.md5 = s.md5 ∧
    ∀ id, (s'.multipartUploads.get? id).isSome
      = if id = uploadId then there else (s.multipartUploads.get? id).isSome

theorem tableAfter_track (s : DiskStorage) (uploadId : ByteString) (state : MultipartUploadState)
    (h : ∃ name : EntryName, name.text = uploadId) :
    TableAfter s (s.track uploadId state h) uploadId true := by
  refine ⟨rfl, rfl, fun id => ?_⟩
  show ((s.multipartUploads.insert uploadId state).get? id).isSome = _
  rw [InsertionMap.get?_insert]
  split <;> rfl

theorem tableAfter_untrack (s : DiskStorage) (uploadId : ByteString) :
    TableAfter s (s.untrack uploadId) uploadId false := by
  refine ⟨rfl, rfl, fun id => ?_⟩
  show ((s.multipartUploads.erase uploadId).get? id).isSome = _
  rw [InsertionMap.get?_erase]
  split <;> rfl

theorem run_uploadPart_missing {uploadId : ByteString}
    (hnone : s.multipartUploads.get? uploadId = none) (n : Int) (data : ByteString) :
    (s.uploadPart uploadId n data).run os cwd d = ((s, uploadMissing uploadId "upload_part"), d) := by
  fun_cases uploadPart s uploadId n data with
  | case1 hget => rfl
  | case2 state hget =>
      rw [hnone] at hget
      cases hget

theorem run_uploadPart (h : Represents (s.base cwd) named ids d store) (hsep : SeparateObjects named)
    {uploadId : ByteString} {parts : Int → Option ByteString}
    (hparts : store.uploads uploadId = some parts)
    (hthere : (s.multipartUploads.get? uploadId).isSome = true) (n : Int) (data : ByteString) :
    ∃ s' d', TableAfter s s' uploadId true ∧
      Represents (s.base cwd) named ids d'
        (store.setUpload uploadId (some (Function.update parts n (some data)))) ∧
      (s.uploadPart uploadId n data).run os cwd d
        = ((s', .ok (ObjectStore.etagOf s.md5 data)), d') := by
  fun_cases uploadPart s uploadId n data with
  | case1 hget =>
      rw [hget] at hthere
      cases hthere
  | case2 state hget =>
      obtain ⟨name, rfl⟩ := s.namedIds uploadId state hget
      obtain ⟨hdir, hfiles⟩ := h.parts name.text parts hparts
      refine ⟨_, _, tableAfter_track s _ _ _, h.receive hsep hparts n data,
        OsProgram.run_attempt ?_ _ _⟩
      rw [OsEffect.apply, resolve_partPath]
      refine Tree.write_eq ?_ ?_ data
      · have hparent : (uploadPath (s.base cwd) [name.text, intStr n]).dropLast
            = uploadPath (s.base cwd) [name.text] := by
          rw [uploadPath, List.dropLast_append_of_ne_nil (List.cons_ne_nil _ _)]
          rfl
        rw [hparent]
        exact Tree.isDir_iff.mpr hdir
      · rw [hfiles n]
        cases parts n <;> rintro ⟨⟩

theorem run_completeMultipart (h : Represents (s.base cwd) named ids d store)
    (hsep : SeparateObjects named) (ho : (bucket, key) ∈ named) {uploadId : ByteString}
    {parts : Int → Option ByteString} (hparts : store.uploads uploadId = some parts)
    (hthere : (s.multipartUploads.get? uploadId).isSome = true) (listed : List PartInfo) :
    match ObjectStore.concatenation parts listed with
    | .error n => (s.completeMultipart bucket key uploadId listed).run os cwd d
        = ((s, failure .objectNotFound "Part not found: " "complete_multipart" (intStr n)), d)
    | .ok data => ∃ s' d', TableAfter s s' uploadId false ∧
        Represents (s.base cwd) named ids d'
          ((store.setObject bucket key (some data)).setUpload uploadId none) ∧
        (s.completeMultipart bucket key uploadId listed).run os cwd d
          = ((s', .ok ⟨key, ObjectStore.etagOf s.md5 data, data.length⟩), d') := by
  obtain ⟨state, hget⟩ := Option.isSome_iff_exists.mp hthere
  obtain ⟨name, rfl⟩ := s.namedIds uploadId state hget
  obtain ⟨hdir, hfiles⟩ := h.parts name.text parts hparts
  cases hdata : ObjectStore.concatenation parts listed with
  | error n =>
      dsimp only
      rw [completeMultipart, hget]
      refine (run_readParts os hfiles _ _ listed []).trans ?_
      rw [hdata]
  | ok data =>
      obtain ⟨d₁, h₁, hstore⟩ := run_store os h hsep ho data
      have hdir₁ : d₁.node (uploadPath (s.base cwd) [name.text]) = some .dir :=
        (h₁.parts name.text parts hparts).1
      refine ⟨_, _, tableAfter_untrack s _, h₁.finish hsep name.text, ?_⟩
      rw [completeMultipart, hget]
      refine (run_readParts os hfiles _ _ listed []).trans ?_
      rw [hdata]
      dsimp only
      rw [List.nil_append, hstore]
      have hremoved : (OsEffect.rmdirAll (s.tempDir name.text)).apply cwd d₁
          = some (d₁.without (uploadPath (s.base cwd) [name.text])) := by
        rw [OsEffect.apply, resolve_tempDir]
        exact Tree.removeAll_eq hdir₁
      exact OsProgram.run_effect hremoved _

theorem run_abortMultipart (h : Represents (s.base cwd) named ids d store) (hsep : SeparateObjects named)
    {uploadId : ByteString} {parts : Int → Option ByteString}
    (hparts : store.uploads uploadId = some parts)
    (hthere : (s.multipartUploads.get? uploadId).isSome = true) :
    ∃ s' d', TableAfter s s' uploadId false ∧
      Represents (s.base cwd) named ids d' (store.setUpload uploadId none) ∧
      (s.abortMultipart uploadId).run os cwd d = ((s', .ok ()), d') := by
  obtain ⟨state, hget⟩ := Option.isSome_iff_exists.mp hthere
  obtain ⟨name, rfl⟩ := s.namedIds uploadId state hget
  refine ⟨_, _, tableAfter_untrack s _, h.finish hsep name.text, ?_⟩
  rw [abortMultipart, hget]
  refine OsProgram.run_effect ?_ _
  rw [OsEffect.apply, resolve_tempDir]
  exact Tree.removeAll_eq (h.parts name.text parts hparts).1

end DiskStorage

end VHono
