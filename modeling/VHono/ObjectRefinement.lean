import VHono.StoreRefinement

/-! # Runs of the local storage

    Every operation on the storage is the one on the map, and so is every run:
    the answers are those of the map, and after each operation the disk holds
    what the map holds.  On the map itself an operation changes no object but
    its target and no upload but its own. -/

namespace VHono

open ByteString PathSegments FileTrees MachineRuns

variable (os : OsRest) {cwd : Path} {config : DiskConfig} {md5 : ByteString → ByteString}
  {named : List (ByteString × ByteString)} {ids : ByteString → Prop}

/-! ## One operation -/

/-- An operation that changes one upload. -/
theorem simulates_upload {s s' : DiskStorage} {d' : Disk} {store store' : ObjectStore}
    {uploadId : ByteString} {there : Bool} {parts : Option (Int → Option ByteString)}
    (htable : ∀ id, (s.multipartUploads.get? id).isSome = (store.uploads id).isSome)
    (hafter : s.TableAfter s' uploadId there) (hparts : parts.isSome = there)
    (hsame : store'.uploads = store.uploads)
    (hdisk : Represents (s.base cwd) named ids d' (store'.setUpload uploadId parts)) :
    Simulates s.config s.md5 cwd named ids (s', d') (store'.setUpload uploadId parts) := by
  obtain ⟨hconfig, hmd5, hget⟩ := hafter
  refine ⟨hconfig, hmd5, fun id => ?_, hdisk⟩
  show (s'.multipartUploads.get? id).isSome = (Function.update store'.uploads uploadId parts id).isSome
  rw [hget, hsame]
  by_cases hid : id = uploadId
  · rw [if_pos hid, hid, Function.update_self, hparts]
  · rw [if_neg hid, Function.update_of_ne hid, htable]

/-- **ONE OPERATION** on the storage is the one on the map. -/
theorem Simulates.step {state : DiskStorage × Disk} {store : ObjectStore}
    (h : Simulates config md5 cwd named ids state store) (hsep : SeparateObjects named) (call : ObjectOp)
    (hnamed : ∀ o ∈ call.named, o ∈ named) (hids : ∀ id, call.started = some id → ids id)
    (hfresh : call.Fresh store) :
    Simulates config md5 cwd named ids (DiskStorage.step os cwd state call).1
        (store.step md5 call).1 ∧
      (DiskStorage.step os cwd state call).2 = (store.step md5 call).2 := by
  obtain ⟨s, d⟩ := state
  obtain ⟨rfl, rfl, htable, hdisk⟩ := h
  change Represents (s.base cwd) named ids d store at hdisk
  cases call with
  | upload bucket key data =>
      obtain ⟨d', h', hrun⟩ := DiskStorage.run_upload os hdisk hsep
        (hnamed _ (List.mem_singleton.mpr rfl)) data
      rw [DiskStorage.step, hrun]
      exact ⟨⟨rfl, rfl, htable, h'⟩, rfl⟩
  | download bucket key =>
      have hrun := DiskStorage.run_download os hdisk hsep
        (hnamed _ (List.mem_singleton.mpr rfl))
      rw [DiskStorage.step, hrun, ObjectStore.step]
      cases store.objects bucket key <;> exact ⟨⟨rfl, rfl, htable, hdisk⟩, rfl⟩
  | delete bucket key =>
      have hrun := DiskStorage.run_delete os hdisk hsep
        (hnamed _ (List.mem_singleton.mpr rfl))
      rw [DiskStorage.step, ObjectStore.step]
      cases hobject : store.objects bucket key with
      | none =>
          rw [hobject] at hrun
          rw [hrun]
          exact ⟨⟨rfl, rfl, htable, hdisk⟩, rfl⟩
      | some data =>
          rw [hobject] at hrun
          obtain ⟨d', h', hrun⟩ := hrun
          rw [hrun]
          exact ⟨⟨rfl, rfl, htable, h'⟩, rfl⟩
  | objectExists bucket key =>
      have hrun := DiskStorage.run_objectExists os hdisk hsep
        (hnamed _ (List.mem_singleton.mpr rfl))
      rw [DiskStorage.step, hrun]
      exact ⟨⟨rfl, rfl, htable, hdisk⟩, rfl⟩
  | copy srcBucket srcKey dstBucket dstKey =>
      have hrun := DiskStorage.run_copy os hdisk hsep (hnamed _ (List.mem_cons_self ..))
        (hnamed (dstBucket, dstKey) (List.mem_cons_of_mem _ (List.mem_singleton.mpr rfl)))
      rw [DiskStorage.step, ObjectStore.step]
      cases hobject : store.objects srcBucket srcKey with
      | none =>
          rw [hobject] at hrun
          rw [hrun]
          exact ⟨⟨rfl, rfl, htable, hdisk⟩, rfl⟩
      | some data =>
          rw [hobject] at hrun
          obtain ⟨d', h', hrun⟩ := hrun
          rw [hrun]
          exact ⟨⟨rfl, rfl, htable, h'⟩, rfl⟩
  | initMultipart now random bucket key contentType =>
      obtain ⟨d', h', hrun⟩ := DiskStorage.run_initMultipart os hdisk hsep
        (hnamed _ (List.mem_singleton.mpr rfl)) (hids _ rfl) hfresh contentType
      rw [DiskStorage.step, hrun]
      have hafter := DiskStorage.tableAfter_track s (LocalStorage.generateUploadId now random)
        ⟨bucket, key, contentType, .empty⟩ ⟨DiskStorage.newUploadId now random, rfl⟩
      exact ⟨simulates_upload htable hafter rfl rfl h', rfl⟩
  | uploadPart bucket key uploadId n data =>
      rw [DiskStorage.step, ObjectStore.step]
      cases hparts : store.uploads uploadId with
      | none =>
          have hget : s.multipartUploads.get? uploadId = none := by
            simpa [hparts] using htable uploadId
          rw [DiskStorage.run_uploadPart_missing os hget]
          exact ⟨⟨rfl, rfl, htable, hdisk⟩, rfl⟩
      | some parts =>
          have hthere : (s.multipartUploads.get? uploadId).isSome = true := by
            rw [htable, hparts]
            rfl
          obtain ⟨s', d', hafter, h', hrun⟩ := DiskStorage.run_uploadPart os hdisk hsep hparts
            hthere n data
          rw [hrun]
          exact ⟨simulates_upload htable hafter rfl rfl h', rfl⟩
  | completeMultipart bucket key uploadId listed =>
      rw [DiskStorage.step, ObjectStore.step]
      cases hparts : store.uploads uploadId with
      | none =>
          have hget : s.multipartUploads.get? uploadId = none := by
            simpa [hparts] using htable uploadId
          rw [DiskStorage.completeMultipart, hget]
          exact ⟨⟨rfl, rfl, htable, hdisk⟩, rfl⟩
      | some parts =>
          have hthere : (s.multipartUploads.get? uploadId).isSome = true := by
            rw [htable, hparts]
            rfl
          have hrun := DiskStorage.run_completeMultipart os hdisk hsep
            (hnamed _ (List.mem_singleton.mpr rfl)) hparts hthere listed
          dsimp only
          cases hdata : ObjectStore.concatenation parts listed with
          | error n =>
              rw [hdata] at hrun
              rw [hrun]
              exact ⟨⟨rfl, rfl, htable, hdisk⟩, rfl⟩
          | ok data =>
              rw [hdata] at hrun
              obtain ⟨s', d', hafter, h', hrun⟩ := hrun
              rw [hrun]
              exact ⟨simulates_upload htable hafter rfl rfl h', rfl⟩
  | abortMultipart bucket key uploadId =>
      rw [DiskStorage.step, ObjectStore.step]
      cases hparts : store.uploads uploadId with
      | none =>
          have hget : s.multipartUploads.get? uploadId = none := by
            simpa [hparts] using htable uploadId
          rw [DiskStorage.abortMultipart, hget]
          exact ⟨⟨rfl, rfl, htable, hdisk⟩, rfl⟩
      | some parts =>
          have hthere : (s.multipartUploads.get? uploadId).isSome = true := by
            rw [htable, hparts]
            rfl
          obtain ⟨s', d', hafter, h', hrun⟩ := DiskStorage.run_abortMultipart os hdisk hsep
            hparts hthere
          rw [hrun]
          exact ⟨simulates_upload htable hafter rfl rfl h', rfl⟩

/-! ## Runs -/

/-- **A RUN** on the storage answers as the one on the map, and wherever it has got to the storage
    represents the map. -/
theorem Simulates.run (hsep : SeparateObjects named) :
    ∀ {calls : List ObjectOp} {state : DiskStorage × Disk} {store : ObjectStore},
      Simulates config md5 cwd named ids state store →
      (∀ call ∈ calls, (∀ o ∈ call.named, o ∈ named) ∧ ∀ id, call.started = some id → ids id) →
      store.FreshIds md5 calls →
      outputs (DiskStorage.step os cwd) state calls = outputs (ObjectStore.step md5) store calls ∧
        ∀ before, before <+: calls → Simulates config md5 cwd named ids
          (final (DiskStorage.step os cwd) state before)
          (final (ObjectStore.step md5) store before) := by
  intro calls
  induction calls with
  | nil =>
      intro state store h _ _
      refine ⟨rfl, fun before hbefore => ?_⟩
      rw [List.prefix_nil.mp hbefore]
      exact h
  | cons call calls ih =>
      intro state store h hcalls hfresh
      obtain ⟨hnamed, hids⟩ := hcalls call (List.mem_cons_self ..)
      obtain ⟨hstep, houtput⟩ := h.step os hsep call hnamed hids hfresh.1
      obtain ⟨hrest, hbefore⟩ := ih hstep (fun c hc => hcalls c (List.mem_cons_of_mem _ hc)) hfresh.2
      refine ⟨congrArg₂ List.cons houtput hrest, fun before hprefix => ?_⟩
      cases before with
      | nil => exact h
      | cons first before =>
          obtain ⟨rfl, htail⟩ := List.cons_prefix_cons.mp hprefix
          exact hbefore before htail

/-! ## Where a run starts -/

/-- What the named objects are on a disk, with no upload in progress. -/
def ObjectStore.onDisk (base : Path) (d : Disk) : ObjectStore where
  objects bucket key := d.content (objectPath base (bucket, key))
  uploads _ := none

/-- A disk on which no directory stands in an object's place, no file in the way of one or of the
    uploads, and nothing in the place of an upload that will be started. -/
structure ReadyDisk (base : Path) (named : List (ByteString × ByteString))
    (ids : ByteString → Prop) (d : Disk) : Prop where
  noDir   : ∀ o ∈ named, d.node (objectPath base o) ≠ some .dir
  way     : ∀ o ∈ named, ∀ p, p <+: objectPath base o → p ≠ objectPath base o → d.content p = none
  uploads : ∀ p, p <+: uploadPath base [] → d.content p = none
  fresh   : ∀ id, ids id → ∀ p, uploadPath base [id] <+: p → d.node p = none

theorem ReadyDisk.simulates {d : Disk}
    (h : ReadyDisk (resolveText cwd config.basePath) named ids d) :
    Simulates config md5 cwd named ids (DiskStorage.new config md5, d)
      (.onDisk (resolveText cwd config.basePath) d) := by
  refine ⟨rfl, rfl, fun _ => rfl, ⟨fun _ _ => rfl, h.noDir, h.way, h.uploads, ?_, ?_⟩⟩
  · intro id parts hparts
    cases hparts
  · intro id hid _
    exact h.fresh id hid

/-- A disk without files and directories is ready. -/
theorem readyDisk_empty {base : Path} : ReadyDisk base named ids .empty := by
  have hnode : ∀ p : Path, p ≠ [] → (Tree.empty : Disk).node p = none := fun p hp => if_neg hp
  have hcontent : ∀ p : Path, (Tree.empty : Disk).content p = none := by
    intro p
    by_cases hp : p = []
    · rw [hp]
      rfl
    · rw [Tree.content, hnode p hp]
  refine ⟨fun o _ => ?_, fun _ _ p _ _ => hcontent p, fun p _ => hcontent p, fun id _ p hp => ?_⟩
  · rw [hnode _ objectPath_ne_nil]
    rintro ⟨⟩
  · refine hnode p ?_
    rintro rfl
    exact uploadPath_ne_nil (List.prefix_nil.mp hp)

/-! ## What an operation leaves alone -/

namespace ObjectStore

theorem setObject_other (store : ObjectStore) {bucket key b k : ByteString}
    (content : Option ByteString) (h : (b, k) ∉ [(bucket, key)]) :
    (store.setObject bucket key content).objects b k = store.objects b k := by
  refine if_neg ?_
  rintro ⟨rfl, rfl⟩
  exact h (List.mem_singleton.mpr rfl)

theorem setUpload_untouched (store : ObjectStore) {uploadId id : ByteString}
    (parts : Option (Int → Option ByteString)) (h : some uploadId ≠ some id) :
    (store.setUpload uploadId parts).uploads id = store.uploads id :=
  store.setUpload_other parts (fun heq => h (congrArg some heq.symm))

/-- No object but the target changes. -/
theorem objects_step (md5 : ByteString → ByteString) (store : ObjectStore) (call : ObjectOp)
    {b k : ByteString} (h : (b, k) ∉ call.targets) :
    (store.step md5 call).1.objects b k = store.objects b k := by
  cases call with
  | upload bucket key data => exact setObject_other store _ h
  | download bucket key => rw [step]; cases store.objects bucket key <;> rfl
  | delete bucket key =>
      rw [step]
      cases store.objects bucket key with
      | none => rfl
      | some data => exact setObject_other store _ h
  | objectExists bucket key => rfl
  | copy srcBucket srcKey dstBucket dstKey =>
      rw [step]
      cases store.objects srcBucket srcKey with
      | none => rfl
      | some data => exact setObject_other store _ h
  | initMultipart now random bucket key contentType => rfl
  | uploadPart bucket key uploadId n data => rw [step]; cases store.uploads uploadId <;> rfl
  | completeMultipart bucket key uploadId listed =>
      rw [step]
      cases store.uploads uploadId with
      | none => rfl
      | some parts =>
          dsimp only
          cases concatenation parts listed with
          | error n => rfl
          | ok data => exact setObject_other store _ h
  | abortMultipart bucket key uploadId => rw [step]; cases store.uploads uploadId <;> rfl

/-- No upload but its own changes. -/
theorem uploads_step (md5 : ByteString → ByteString) (store : ObjectStore) (call : ObjectOp)
    {id : ByteString} (h : call.upload? ≠ some id) :
    (store.step md5 call).1.uploads id = store.uploads id := by
  cases call with
  | upload bucket key data => rfl
  | download bucket key => rw [step]; cases store.objects bucket key <;> rfl
  | delete bucket key => rw [step]; cases store.objects bucket key <;> rfl
  | objectExists bucket key => rfl
  | copy srcBucket srcKey dstBucket dstKey => rw [step]; cases store.objects srcBucket srcKey <;> rfl
  | initMultipart now random bucket key contentType => exact setUpload_untouched store _ h
  | uploadPart bucket key uploadId n data =>
      rw [step]
      cases store.uploads uploadId with
      | none => rfl
      | some parts => exact setUpload_untouched store _ h
  | completeMultipart bucket key uploadId listed =>
      rw [step]
      cases store.uploads uploadId with
      | none => rfl
      | some parts =>
          dsimp only
          cases concatenation parts listed with
          | error n => rfl
          | ok data => exact setUpload_untouched _ _ h
  | abortMultipart bucket key uploadId =>
      rw [step]
      cases store.uploads uploadId with
      | none => rfl
      | some parts => exact setUpload_untouched store _ h

/-- An upload that cannot be completed changes nothing. -/
theorem step_complete_error {md5 : ByteString → ByteString} {store : ObjectStore}
    {bucket key uploadId err : ByteString} {listed : List PartInfo}
    (h : (store.step md5 (.completeMultipart bucket key uploadId listed)).2 = .stored (.error err)) :
    (store.step md5 (.completeMultipart bucket key uploadId listed)).1 = store := by
  rw [step] at h ⊢
  cases hparts : store.uploads uploadId with
  | none => rfl
  | some parts =>
      rw [hparts] at h
      dsimp only at h ⊢
      cases hdata : concatenation parts listed with
      | error n => rfl
      | ok data =>
          rw [hdata] at h
          cases h

end ObjectStore

/-! ## The refinement -/

/-- **THE REFINEMENT.**  On a disk that is ready for them, every sequence of operations on objects
    in separate places, each upload started under an id that no upload in progress has, answers as
    on the map; after each operation the disk holds what the map holds; and on the map an operation
    changes no object but its target and no upload but its own, and nothing if an upload cannot be
    completed. -/
theorem localStorage_refines (os : OsRest) (cwd : Path) (config : DiskConfig)
    (md5 : ByteString → ByteString) (d : Disk) (calls : List ObjectOp)
    (hsep : SeparateObjects (calls.flatMap ObjectOp.named))
    (hready : ReadyDisk (resolveText cwd config.basePath) (calls.flatMap ObjectOp.named)
      (fun id => ∃ call ∈ calls, call.started = some id) d)
    (hfresh : (ObjectStore.onDisk (resolveText cwd config.basePath) d).FreshIds md5 calls) :
    outputs (DiskStorage.step os cwd) (DiskStorage.new config md5, d) calls
        = outputs (ObjectStore.step md5) (.onDisk (resolveText cwd config.basePath) d) calls ∧
      (∀ before, before <+: calls → ∀ o ∈ calls.flatMap ObjectOp.named,
        (final (DiskStorage.step os cwd) (DiskStorage.new config md5, d) before).2.content
            (objectPath (resolveText cwd config.basePath) o)
          = (final (ObjectStore.step md5) (.onDisk (resolveText cwd config.basePath) d)
              before).objects o.1 o.2) ∧
      (∀ (store : ObjectStore) (call : ObjectOp),
        (∀ b k, (b, k) ∉ call.targets → (store.step md5 call).1.objects b k = store.objects b k) ∧
        (∀ id, call.upload? ≠ some id → (store.step md5 call).1.uploads id = store.uploads id)) ∧
      (∀ (store : ObjectStore) (bucket key uploadId err : ByteString) (listed : List PartInfo),
        (store.step md5 (.completeMultipart bucket key uploadId listed)).2 = .stored (.error err) →
        (store.step md5 (.completeMultipart bucket key uploadId listed)).1 = store) := by
  obtain ⟨houtputs, hstates⟩ := Simulates.run os hsep hready.simulates
    (fun call hcall => ⟨fun o ho => List.mem_flatMap.mpr ⟨call, hcall, ho⟩,
      fun id hid => ⟨call, hcall, hid⟩⟩) hfresh
  refine ⟨houtputs, fun before hbefore o ho => ?_, fun store call => ⟨?_, ?_⟩, ?_⟩
  · exact (hstates before hbefore).disk.objects o ho
  · exact fun b k => ObjectStore.objects_step md5 store call
  · exact fun id => ObjectStore.uploads_step md5 store call
  · exact fun store bucket key uploadId err listed => ObjectStore.step_complete_error

/-! ## Two runs -/

def silentOs : OsRest := ⟨fun _ => [], fun _ _ => 0, fun _ _ => .ok []⟩

/-- An upload with a part sent twice, completed and read. -/
def uploadCalls : List ObjectOp :=
  [.initMultipart 7 none (ascii "b") (ascii "k") [],
   .uploadPart (ascii "b") (ascii "k") (LocalStorage.generateUploadId 7 none) 1 (ascii "x"),
   .uploadPart (ascii "b") (ascii "k") (LocalStorage.generateUploadId 7 none) 1 (ascii "y"),
   .completeMultipart (ascii "b") (ascii "k") (LocalStorage.generateUploadId 7 none) [⟨1, [], 1⟩],
   .download (ascii "b") (ascii "k")]

theorem localStorage_refines_upload :
    outputs (DiskStorage.step silentOs []) (DiskStorage.new {} id, .empty) uploadCalls
      = outputs (ObjectStore.step id) (.onDisk (resolveText [] (ascii "./storage")) .empty)
          uploadCalls :=
  (localStorage_refines silentOs [] {} id .empty uploadCalls
    ⟨by decide +kernel, by decide +kernel, by decide +kernel⟩ readyDisk_empty
    ⟨rfl, trivial, trivial, trivial, trivial, trivial⟩).1

/-- One path from two buckets. -/
def joinedCalls : List ObjectOp :=
  [.upload (ascii "a/b") (ascii "c") (ascii "x"), .download (ascii "a") (ascii "b/c")]

/-- Objects of different buckets are one file, though no key begins with another. -/
theorem joined_paths_meet :
    (∀ o ∈ joinedCalls.flatMap ObjectOp.named,
      (∀ t ∈ segments o.1 ++ segments o.2, Plain t) ∧ o.1 ≠ ascii ".multipart") ∧
    (∀ o ∈ joinedCalls.flatMap ObjectOp.named, ∀ o' ∈ joinedCalls.flatMap ObjectOp.named,
      segments o.2 <+: segments o'.2 → o.2 = o'.2) ∧
    outputs (DiskStorage.step silentOs []) (DiskStorage.new {} id, .empty) joinedCalls
      ≠ outputs (ObjectStore.step id) .empty joinedCalls := by
  decide +kernel

end VHono
