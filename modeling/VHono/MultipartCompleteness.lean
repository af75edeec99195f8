import VHono.ChunkManager

/-! # What a completed multipart upload holds

    The rows of the parts, the files of the parts and the bodies that were
    accepted are kept in step, unless a call fails on a part that is recorded
    already or an object is stored among the parts.  Then a completed upload
    holds the accepted bodies in order.  That they make up the declared file is
    not checked: its size is right exactly if the recorded sizes add up to it. -/

namespace VHono

open ByteString PathSegments PieceAssembly MachineRuns

namespace ChunkManager

/-! ## What the property says -/

abbrev MultipartEvent := Event ChunkManager MultipartCall MultipartOutput

/-- The state a call leaves. -/
def after (e : MultipartEvent) : ChunkManager := (e.before.step e.input).1

/-- The upload is started with these parameters. -/
def Starts (params : InitMultipartParams) (upload : MultipartUpload) (e : MultipartEvent) : Prop :=
  ∃ io, e.input = .init io params ∧ e.output = .started (.ok upload)

/-- An upload is started under the id. -/
def StartsAs (uploadId : ByteString) (e : MultipartEvent) : Prop :=
  ∃ params upload, Starts params upload e ∧ upload.uploadId = uploadId

/-- The upload is completed, and that succeeds. -/
def Completes (uploadId : ByteString) (e : MultipartEvent) : Prop :=
  ∃ io result, e.input = .complete io uploadId ∧ e.output = .completed (.ok result)

/-- An accepted part is remembered with its body. -/
def accept (uploadId : ByteString) (bodies : Int → Option ByteString) (e : MultipartEvent) :
    Int → Option ByteString :=
  match e.input, e.output with
  | .uploadPart _ id n data, .part result =>
    if id = uploadId ∧ result.success = true then Function.update bodies n (some data) else bodies
  | _, _ => bodies

/-- The last accepted body of each part. -/
def lastAccepted (uploadId : ByteString) (es : List MultipartEvent) : Int → Option ByteString :=
  es.foldl (accept uploadId) (fun _ => none)

/-- The object is stored: the bodies of all parts, in order, and as long as declared. -/
def StoresWhole (params : InitMultipartParams) (upload : MultipartUpload)
    (bodies : Int → Option ByteString) (cm : ChunkManager) : Prop :=
  ∃ content, cm.provider.files (cm.provider.getFullPath params.bucket params.objectKey)
      = some content ∧
    assemble bodies (numbers upload.totalChunks.toNat) = some content ∧
    (content.length : Int) = params.fileSize

/-- The sizes in the rows of an upload. -/
def recordedBytes (cm : ChunkManager) (uploadId : ByteString) : Int :=
  ((cm.db.partRows uploadId).map (·.size)).sum

/-- A call for a recorded part of the upload goes through, or leaves the part's file as it is;
    and no completed object is stored among the parts. -/
def SafeCall (cm : ChunkManager) (uploadId : ByteString) (call : MultipartCall) : Prop :=
  match call with
  | .uploadPart io id n data => id = uploadId → cm.Reaches io id n →
      (cm.db.parts.get? (id, n)).isSome = true →
      (io.write.outcome = .done ∧ io.record = none) ∨
        io.write.outcome.apply (cm.provider.files (cm.provider.partPath id n)) data
          = cm.provider.files (cm.provider.partPath id n)
  | .complete _ id => ∀ upload, cm.db.declared id = some upload →
      ¬ cm.provider.multipartDir <+: cm.provider.getFullPath upload.bucket upload.objectKey
  | _ => True

/-! ## Rows, files and bodies in step -/

/-- The row of a part has the size of the accepted body, and so has its file, if it is there. -/
def PartKept (cm : ChunkManager) (uploadId : ByteString) (bodies : Int → Option ByteString) (n size : Int) :
    Prop :=
  ∃ data, bodies n = some data ∧ size = data.length ∧
    ∀ content, cm.provider.files (cm.provider.partPath uploadId n) = some content → content = data

/-- The tables and files of an upload, and the bodies accepted for it. -/
structure Tracks (upload : MultipartUpload) (bodies : Int → Option ByteString)
    (cm : ChunkManager) : Prop where
  plain : Plain upload.uploadId
  row   : ∀ u, cm.db.declared upload.uploadId = some u → u = upload
  parts : ∀ n etag size, cm.db.parts.get? (upload.uploadId, n) = some (etag, size) →
    (1 ≤ n ∧ n ≤ upload.totalChunks) ∧ cm.PartKept upload.uploadId bodies n size

variable {cm cm' : ChunkManager} {upload : MultipartUpload} {bodies : Int → Option ByteString}

/-- Nothing is lost when files only go and rows only go. -/
theorem Tracks.shrink (h : Tracks upload bodies cm)
    (hconfig : cm'.provider.config = cm.provider.config)
    (hfiles : ∀ n content,
      cm'.provider.files (cm.provider.partPath upload.uploadId n) = some content →
      cm.provider.files (cm.provider.partPath upload.uploadId n) = some content)
    (hdeclared : ∀ u, cm'.db.declared upload.uploadId = some u →
      cm.db.declared upload.uploadId = some u)
    (hparts : ∀ key row, cm'.db.parts.get? key = some row → cm.db.parts.get? key = some row) :
    Tracks upload bodies cm' := by
  refine ⟨h.plain, fun u hu => h.row u (hdeclared u hu), ?_⟩
  intro n etag size hrow
  obtain ⟨hrange, data, hdata, hsize, hkept⟩ := h.parts n etag size (hparts _ _ hrow)
  refine ⟨hrange, data, hdata, hsize, ?_⟩
  intro content hcontent
  rw [LocalStorage.partPath_congr hconfig] at hcontent
  exact hkept content (hfiles n content hcontent)

theorem tracks_init (h : Tracks upload bodies cm) {io : InitIo} {params : InitMultipartParams}
    (hother : ∀ u, (cm.initMultipart io params).2 = .ok u → u.uploadId ≠ upload.uploadId) :
    Tracks upload bodies (cm.initMultipart io params).1 := by
  obtain ⟨hconfig, hfiles, hparts, hrows⟩ := initMultipart_spec cm io params
  refine h.shrink hconfig ?_ ?_ ?_
  · intro n content hcontent
    rw [hfiles] at hcontent
    exact hcontent
  · intro u hu
    rcases hrows with ⟨hsame, -⟩ | ⟨u', hok, -, -, -, -, -, hdeclared⟩
    · rw [hsame] at hu
      exact hu
    · rw [hdeclared, if_neg (Ne.symm (hother u' hok))] at hu
      exact hu
  · intro key row hrow
    rw [hparts] at hrow
    exact hrow

theorem tracks_complete (h : Tracks upload bodies cm) {io : CompleteIo} {uploadId : ByteString}
    {tracked : ByteString}
    (hsafe : cm.SafeCall tracked (.complete io uploadId)) :
    Tracks upload bodies (cm.completeMultipart io uploadId).1 := by
  obtain ⟨hconfig, hparts, hdeclared, hfiles, -⟩ := completeMultipart_spec cm io uploadId
  refine h.shrink hconfig ?_ ?_ ?_
  · intro n content hcontent
    rcases hfiles _ content hcontent with hsame | ⟨u, hu, hpath⟩
    · exact hsame
    · -- the object would be stored in the file of a part
      have hprefix := LocalStorage.multipartDir_prefix_partPath cm.provider h.plain n
      rw [hpath] at hprefix
      exact absurd hprefix (hsafe u hu)
  · intro u hu
    rw [hdeclared] at hu
    exact hu
  · intro key row hrow
    rw [hparts] at hrow
    exact hrow

theorem tracks_abort (h : Tracks upload bodies cm) (hconsistent : cm.db.Consistent) {io : AbortIo}
    {uploadId : ByteString} : Tracks upload bodies (cm.abortMultipart io uploadId).1 := by
  obtain ⟨hconfig, -, hfiles, hdeclared, hparts⟩ := abortMultipart_spec cm io uploadId hconsistent
  exact h.shrink hconfig (fun n => hfiles _) (hdeclared _) hparts

/-- A call for another part leaves the rest of the upload alone. -/
theorem PartKept.other {uploadId id : ByteString} {n k size : Int}
    {torn : Option ByteString} (h : cm.PartKept uploadId bodies k size)
    (hconfig : cm'.provider.config = cm.provider.config) (hplain : Plain uploadId)
    (hid : Plain id) (hne : ¬ (id = uploadId ∧ n = k))
    (hfiles : cm'.provider.files = cm.provider.files.set (cm.provider.partPath id n) torn)
    {bodies' : Int → Option ByteString} (hbodies : bodies' k = bodies k) :
    cm'.PartKept uploadId bodies' k size := by
  obtain ⟨data, hdata, hsize, hkept⟩ := h
  refine ⟨data, hbodies.trans hdata, hsize, ?_⟩
  intro content hcontent
  have hpath : cm.provider.partPath uploadId k ≠ cm.provider.partPath id n := by
    intro heq
    obtain ⟨hids, hnumbers⟩ := LocalStorage.partPath_injective hplain hid heq
    exact hne ⟨hids.symm, hnumbers.symm⟩
  rw [LocalStorage.partPath_congr hconfig, hfiles, Files.set_other _ hpath] at hcontent
  exact hkept content hcontent

/-- **THE STEP OF A PART.**  The bodies follow the rows. -/
theorem tracks_uploadPart (h : Tracks upload bodies cm) {io : PartIo} {id : ByteString} {n : Int}
    {data : ByteString} (hsafe : cm.SafeCall upload.uploadId (.uploadPart io id n data)) :
    Tracks upload
      (if id = upload.uploadId ∧ (cm.uploadPart io id n data).2.success = true then
        Function.update bodies n (some data) else bodies)
      (cm.uploadPart io id n data).1 := by
  obtain ⟨hconfig, huploads, hcases⟩ := uploadPart_spec cm io id n data
  have hdeclared : ∀ u, (cm.uploadPart io id n data).1.db.declared upload.uploadId = some u →
      cm.db.declared upload.uploadId = some u := by
    intro u hu
    rw [UploadTables.declared, huploads] at hu
    exact hu
  rcases hcases with ⟨hfailed, hfiles, hparts⟩ | ⟨hreaches, hplain, hfiles, hresult⟩
  · -- the call does not reach the storage
    rw [if_neg (by simp [hfailed])]
    refine h.shrink hconfig ?_ hdeclared ?_
    · intro k content hcontent
      rw [hfiles] at hcontent
      exact hcontent
    · intro key row hrow
      rw [hparts] at hrow
      exact hrow
  · refine ⟨h.plain, fun u hu => h.row u (hdeclared u hu), ?_⟩
    rcases hresult with ⟨hfailed, hparts, hfault⟩ | ⟨hok, hdone, hrecord, etag, hparts⟩
    · -- not accepted: a recorded part has kept its file
      rw [if_neg (by simp [hfailed])]
      intro k etag size hrow
      rw [hparts] at hrow
      obtain ⟨hrange, hkept⟩ := h.parts k etag size hrow
      refine ⟨hrange, ?_⟩
      by_cases hsame : id = upload.uploadId ∧ n = k
      · obtain ⟨rfl, rfl⟩ := hsame
        have hexists : (cm.db.parts.get? (upload.uploadId, n)).isSome = true := by
          rw [hrow]
          rfl
        rcases hsafe rfl hreaches hexists with hgood | hunchanged
        · exact absurd hgood hfault
        · obtain ⟨body, hbody, hsize, hfile⟩ := hkept
          refine ⟨body, hbody, hsize, ?_⟩
          intro content hcontent
          rw [LocalStorage.partPath_congr hconfig, hfiles, Files.set_same, hunchanged] at hcontent
          exact hfile content hcontent
      · exact hkept.other hconfig h.plain hplain hsame hfiles rfl
    · -- accepted: file, row and body are replaced together
      intro k etag' size hrow
      rw [hparts, InsertionMap.get?_insert] at hrow
      by_cases hsame : id = upload.uploadId ∧ n = k
      · obtain ⟨rfl, rfl⟩ := hsame
        rw [if_pos rfl] at hrow
        obtain ⟨-, rfl⟩ := Prod.mk.inj (Option.some.inj hrow)
        obtain ⟨u, hfind, -, hlow, hhigh, -⟩ := hreaches
        have htotal : u.totalChunks = upload.totalChunks := by
          rw [← h.row _ (UploadTables.declared_of_get (UploadTables.getMultipartUpload_ok hfind))]
        refine ⟨⟨hlow, htotal ▸ hhigh⟩, data, ?_, rfl, ?_⟩
        · rw [if_pos ⟨rfl, hok⟩, Function.update_self]
        · intro content hcontent
          rw [LocalStorage.partPath_congr hconfig, hfiles, Files.set_same, hdone] at hcontent
          exact (Option.some.inj hcontent).symm
      · have hkey : (upload.uploadId, k) ≠ (id, n) := by
          intro heq
          obtain ⟨hids, hnumbers⟩ := Prod.mk.inj heq
          exact hsame ⟨hids.symm, hnumbers.symm⟩
        rw [if_neg hkey] at hrow
        obtain ⟨hrange, hkept⟩ := h.parts k etag' size hrow
        refine ⟨hrange, hkept.other hconfig h.plain hplain hsame hfiles ?_⟩
        split
        · rename_i hid
          exact Function.update_of_ne (fun hk => hsame ⟨hid.1, hk.symm⟩) _ _
        · rfl

/-! ## A completed upload -/

/-- The rows that are there are those of all parts, so their files are the accepted bodies. -/
theorem Tracks.assemble (h : Tracks upload bodies cm) {content : ByteString}
    (hcount : ((cm.db.partRows upload.uploadId).length : Int) = upload.totalChunks)
    (hcontent : PieceAssembly.assemble
      (fun n => cm.provider.files (cm.provider.partPath upload.uploadId n))
      ((UploadTables.sortByPart (·.partNumber) (cm.db.partRows upload.uploadId)).map (·.partNumber))
        = some content) :
    PieceAssembly.assemble bodies (numbers upload.totalChunks.toNat) = some content ∧
      (content.length : Int) = cm.recordedBytes upload.uploadId := by
  have hperm := UploadTables.perm_sortByPart (·.partNumber) (cm.db.partRows upload.uploadId)
  -- what the table says of a row, and what its file holds
  have hrow : ∀ row ∈ UploadTables.sortByPart (·.partNumber) (cm.db.partRows upload.uploadId),
      (1 ≤ row.partNumber ∧ row.partNumber ≤ upload.totalChunks) ∧
        cm.PartKept upload.uploadId bodies row.partNumber row.size := by
    intro row hmem
    obtain ⟨-, hget⟩ := UploadTables.mem_partRows.mp (hperm.mem_iff.mp hmem)
    exact h.parts row.partNumber row.etag row.size hget
  have hnumbers : (UploadTables.sortByPart (·.partNumber) (cm.db.partRows upload.uploadId)).map
      (·.partNumber) = numbers upload.totalChunks.toNat := by
    refine eq_numbers
      (UploadTables.pairwise_sortByPart (UploadTables.nodup_partRows cm.db upload.uploadId)) ?_ ?_
    · intro k hk
      obtain ⟨row, hmem, rfl⟩ := List.mem_map.mp hk
      obtain ⟨⟨hlow, hhigh⟩, -⟩ := hrow row hmem
      exact ⟨hlow, by omega⟩
    · rw [List.length_map, hperm.length_eq]
      omega
  have hbodies : PieceAssembly.assemble bodies
      ((UploadTables.sortByPart (·.partNumber) (cm.db.partRows upload.uploadId)).map
        (·.partNumber)) = some content := by
    rw [← hcontent]
    refine assemble_congr ?_
    intro k hk
    obtain ⟨file, hfile⟩ := piece_of_assemble hcontent k hk
    obtain ⟨row, hmem, rfl⟩ := List.mem_map.mp hk
    obtain ⟨-, data, hdata, -, hkept⟩ := hrow row hmem
    rw [hdata, hfile, hkept file hfile]
  have hsizes : (UploadTables.sortByPart (·.partNumber) (cm.db.partRows upload.uploadId)).map
      (·.size) = (UploadTables.sortByPart (·.partNumber) (cm.db.partRows upload.uploadId)).map
        (fun row => ((((bodies row.partNumber).getD []).length : Nat) : Int)) := by
    refine List.map_congr_left ?_
    intro row hmem
    obtain ⟨-, data, hdata, hsize, -⟩ := hrow row hmem
    rw [hdata, hsize]
    rfl
  refine ⟨hnumbers ▸ hbodies, ?_⟩
  calc (content.length : Int)
      = (((UploadTables.sortByPart (·.partNumber) (cm.db.partRows upload.uploadId)).map
          (fun row => ((bodies row.partNumber).getD []).length)).sum : Nat) := by
        rw [length_assemble hbodies, List.map_map]
        rfl
    _ = ((UploadTables.sortByPart (·.partNumber) (cm.db.partRows upload.uploadId)).map
          (·.size)).sum := by
        rw [hsizes, Nat.cast_list_sum, List.map_map]
        rfl
    _ = cm.recordedBytes upload.uploadId := (hperm.map (·.size)).sum_eq

/-- **THE STEP OF A COMPLETION.**  The bodies are stored in order; they are as long as declared
    exactly if the recorded sizes add up to that. -/
theorem tracks_completes (h : Tracks upload bodies cm) {io : CompleteIo} {result : StorageResult}
    (hsafe : cm.SafeCall upload.uploadId (.complete io upload.uploadId))
    (hok : (cm.completeMultipart io upload.uploadId).2 = .ok result) {params : InitMultipartParams}
    (hbucket : upload.bucket = params.bucket) (hkey : upload.objectKey = params.objectKey) :
    StoresWhole params upload bodies (cm.completeMultipart io upload.uploadId).1 ↔
      cm.recordedBytes upload.uploadId = params.fileSize := by
  obtain ⟨hconfig, -, -, -, hstored⟩ := completeMultipart_spec cm io upload.uploadId
  obtain ⟨u, hu, hplain, hcount, content, hcontent, hfiles⟩ := hstored result hok
  obtain rfl := h.row u hu
  obtain ⟨hjoined, hlength⟩ := h.assemble hcount hcontent
  have hobject : (cm.completeMultipart io u.uploadId).1.provider.files
      (cm.provider.getFullPath u.bucket u.objectKey) = some content := by
    have houtside : ¬ cm.provider.tempDir u.uploadId
        <+: cm.provider.getFullPath u.bucket u.objectKey := by
      intro hprefix
      exact hsafe u hu
        ((LocalStorage.multipartDir_prefix_tempDir cm.provider hplain).trans hprefix)
    rw [hfiles, Files.removeTree_outside _ houtside, Files.set_same]
  rw [StoresWhole, LocalStorage.getFullPath_congr hconfig, ← hbucket, ← hkey, hobject, ← hlength]
  constructor
  · rintro ⟨content', hcontent', -, hsize⟩
    rw [Option.some.inj hcontent']
    exact hsize
  · intro hsize
    exact ⟨content, rfl, hjoined, hsize⟩

/-! ## Runs -/

theorem consistent_step (h : cm.db.Consistent) (call : MultipartCall) :
    (cm.step call).1.db.Consistent := by
  cases call with
  | init io params =>
      obtain ⟨-, -, hparts, hrows⟩ := initMultipart_spec cm io params
      show (cm.initMultipart io params).1.db.Consistent
      rcases hrows with ⟨hsame, -⟩ | ⟨u, -, -, -, -, -, -, hdeclared⟩
      · rw [hsame]
        exact h
      · intro id n row hrow
        rw [hparts] at hrow
        rw [hdeclared]
        split
        · rfl
        · exact h id n row hrow
  | uploadPart io id n data =>
      obtain ⟨-, huploads, hcases⟩ := uploadPart_spec cm io id n data
      show (cm.uploadPart io id n data).1.db.Consistent
      have hdeclared : (cm.uploadPart io id n data).1.db.declared = cm.db.declared := by
        funext k
        rw [UploadTables.declared, huploads]
        rfl
      rcases hcases with ⟨-, -, hparts⟩ | ⟨⟨u, hfind, -⟩, -, -, hresult⟩
      · exact h.congr hdeclared hparts
      · rcases hresult with ⟨-, hparts, -⟩ | ⟨-, -, -, etag, hparts⟩
        · exact h.congr hdeclared hparts
        · intro k j row hrow
          rw [hdeclared]
          rw [hparts, InsertionMap.get?_insert] at hrow
          split at hrow
          · rename_i hkey
            obtain ⟨rfl, -⟩ := Prod.mk.inj hkey
            rw [UploadTables.declared_of_get (UploadTables.getMultipartUpload_ok hfind)]
            rfl
          · exact h k j row hrow
  | complete io id =>
      obtain ⟨-, hparts, hdeclared, -⟩ := completeMultipart_spec cm io id
      exact h.congr hdeclared hparts
  | abort io id => exact (abortMultipart_spec cm io id h).2.1

/-- An upload that is started has no parts yet. -/
theorem tracks_started (h : cm.db.Consistent) {io : InitIo} {params : InitMultipartParams}
    (hok : (cm.initMultipart io params).2 = .ok upload) :
    Tracks upload (fun _ => none) (cm.initMultipart io params).1 ∧
      upload.bucket = params.bucket ∧ upload.objectKey = params.objectKey := by
  obtain ⟨-, -, hparts, hrows⟩ := initMultipart_spec cm io params
  rcases hrows with ⟨-, herror⟩ | ⟨u, hu, hplain, hbucket, hkey, -, hfresh, hdeclared⟩
  · exact absurd hok (herror upload)
  · obtain rfl : u = upload := Except.ok.inj (hu.symm.trans hok)
    refine ⟨⟨hplain, ?_, ?_⟩, hbucket, hkey⟩
    · intro u' hu'
      rw [hdeclared, if_pos rfl] at hu'
      exact (Option.some.inj hu').symm
    · intro n etag size hrow
      rw [hparts] at hrow
      have hexists := h u.uploadId n (etag, size) hrow
      rw [hfresh] at hexists
      cases hexists

/-- **THE STEP LEMMA.**  A safe call keeps the upload in step, and completes it rightly. -/
theorem tracks_step (h : Tracks upload bodies cm) (hconsistent : cm.db.Consistent)
    {past : List MultipartCall} {call : MultipartCall} (hsafe : cm.SafeCall upload.uploadId call)
    (hother : ¬ StartsAs upload.uploadId ⟨past, cm, call, (cm.step call).2⟩) :
    Tracks upload (accept upload.uploadId bodies ⟨past, cm, call, (cm.step call).2⟩)
      (cm.step call).1 := by
  cases call with
  | init io params =>
      refine tracks_init h ?_
      intro u hu hid
      refine hother ⟨params, u, ⟨io, rfl, ?_⟩, hid⟩
      show MultipartOutput.started (cm.initMultipart io params).2 = _
      rw [hu]
  | uploadPart io id n data => exact tracks_uploadPart h hsafe
  | complete io id => exact tracks_complete h hsafe
  | abort io id => exact tracks_abort h hconsistent

/-- **COMPLETED UPLOADS ARE WHOLE IF THE SIZES ADD UP.**  In every run, an upload that is
    started, and completed after safe calls only, stores its last accepted bodies in order and
    in the declared size exactly if the recorded sizes add up to that size. -/
theorem completed_iff (config : ChunkManagerConfig) (storage : LocalStorage)
    (calls : List MultipartCall) {A B C : List MultipartEvent} {i c : MultipartEvent} {params : InitMultipartParams}
    {upload : MultipartUpload}
    (hrun : events step (new config storage) calls = A ++ i :: (B ++ c :: C))
    (hstarts : Starts params upload i) (honce : ∀ e ∈ B, ¬ StartsAs upload.uploadId e)
    (hcompletes : Completes upload.uploadId c)
    (hsafe : ∀ e ∈ B ++ [c], e.before.SafeCall upload.uploadId e.input) :
    StoresWhole params upload (lastAccepted upload.uploadId B) (after c) ↔
      c.before.recordedBytes upload.uploadId = params.fileSize := by
  have hconsistent : ∀ e ∈ events step (new config storage) calls, e.before.db.Consistent :=
    events_before (fun cm : ChunkManager => cm.db.Consistent) (fun _ call h => consistent_step h call)
      UploadTables.consistent_empty calls
  have hi : i ∈ events step (new config storage) calls := by
    rw [hrun]
    exact List.mem_append_right _ (List.mem_cons_self ..)
  obtain ⟨past, rest, hrest⟩ := eventsFrom_after hrun
  obtain ⟨io, hinput, houtput⟩ := hstarts
  have hok : (i.before.initMultipart io params).2 = .ok upload := by
    have hout := eventsFrom_output hi
    rw [hinput, houtput] at hout
    exact (MultipartOutput.started.inj hout).symm
  obtain ⟨htracks, hbucket, hkey⟩ := tracks_started (hconsistent i hi) hok
  have hinit : Tracks upload (fun _ => none) (i.before.step i.input).1 ∧
      (i.before.step i.input).1.db.Consistent := by
    refine ⟨?_, consistent_step (hconsistent i hi) i.input⟩
    rw [hinput]
    exact htracks
  refine eventsFrom_ghost (accept upload.uploadId)
    (fun bodies cm => Tracks upload bodies cm ∧ cm.db.Consistent)
    (fun e => e.before.SafeCall upload.uploadId e.input ∧ ¬ StartsAs upload.uploadId e)
    (fun bodies e => Completes upload.uploadId e →
      (StoresWhole params upload bodies (after e) ↔
        e.before.recordedBytes upload.uploadId = params.fileSize)) ?_ hinit hrest.symm ?_ hcompletes
  · rintro g past cm call ⟨htracks, hcons⟩ ⟨hcall, hother⟩
    refine ⟨⟨tracks_step htracks hcons hcall hother, consistent_step hcons call⟩, ?_⟩
    rintro ⟨io, result, rfl, hdone⟩
    exact tracks_completes htracks hcall (MultipartOutput.completed.inj hdone) hbucket hkey
  · intro e he
    refine ⟨hsafe e he, ?_⟩
    rcases List.mem_append.mp he with hB | hc
    · exact honce e hB
    · obtain rfl := List.mem_singleton.mp hc
      obtain ⟨io', result, hcomplete, -⟩ := hcompletes
      rintro ⟨params', u, ⟨io'', hagain, -⟩, -⟩
      exact nomatch hcomplete.symm.trans hagain

/-! ## A file of one part -/

/-- The digests that the runs below ask for. -/
def sampleMd5 (data : ByteString) : ByteString :=
  if data = ascii "abcde" then
    [0xab, 0x56, 0xb4, 0xd9, 0x2b, 0x40, 0x71, 0x3a, 0xcc, 0x5a, 0xf8, 0x99, 0x85, 0xd4, 0xb7, 0x86]
  else if data = ascii "abc" then
    [0x90, 0x01, 0x50, 0x98, 0x3c, 0xd2, 0x4f, 0xb0, 0xd6, 0x96, 0x3f, 0x7d, 0x28, 0xe1, 0x7f, 0x72]
  else
    [0x8f, 0x19, 0x7e, 0xbe, 0xfa, 0xc3, 0x97, 0xc0, 0xee, 0xc3, 0x46, 0xcf, 0x69, 0x50, 0x0b, 0x3c]

/-- An empty storage. -/
def sampleStorage : LocalStorage := .new { basePath := [ascii "storage"] } sampleMd5 (fun _ => none)

/-- A file of five bytes. -/
def sampleParams : InitMultipartParams :=
  ⟨ascii "docs", ascii "a.txt", ascii "a.txt", 5, ascii "text/plain", 0⟩

/-- The file is uploaded as one part. -/
def sampleCalls (data : String) : List MultipartCall :=
  [.init {} sampleParams, .uploadPart {} (ascii "0-0000000000000000") 1 (ascii data),
    .complete {} (ascii "0-0000000000000000")]

/-- All five bytes are sent. -/
theorem completed_of_five_bytes :
    ∃ i u c upload, events step (new {} sampleStorage) (sampleCalls "abcde") = [i, u, c] ∧
      StoresWhole sampleParams upload (lastAccepted upload.uploadId [u]) (after c) := by
  refine ⟨_, _, _, _, rfl, (completed_iff {} sampleStorage (sampleCalls "abcde") (A := [])
    (B := [_]) (C := []) rfl ⟨{}, rfl, rfl⟩ ?_ ⟨{}, _, rfl, rfl⟩ ?_).mpr (by decide)⟩
  · intro e he
    obtain rfl := List.mem_singleton.mp he
    rintro ⟨params, upload, ⟨io, hinput, -⟩, -⟩
    cases hinput
  · intro e he
    rcases List.mem_cons.mp he with rfl | he
    · intro _ _ hrecorded
      cases hrecorded
    · obtain rfl := List.mem_singleton.mp he
      intro upload hupload
      rw [← Option.some.inj hupload]
      show ¬ [ascii "storage", ascii ".multipart"]
        <+: [ascii "storage", ascii "docs", ascii "a.txt"]
      decide

/-- Three bytes are sent, and the upload of five bytes is completed with them. -/
theorem completed_short :
    ∃ i u c upload, events step (new {} sampleStorage) (sampleCalls "abc") = [i, u, c] ∧
      Starts sampleParams upload i ∧ (∀ e ∈ [u], ¬ StartsAs upload.uploadId e) ∧
      Completes upload.uploadId c ∧
      ¬ StoresWhole sampleParams upload (lastAccepted upload.uploadId [u]) (after c) := by
  refine ⟨_, _, _, _, rfl, ⟨{}, rfl, rfl⟩, ?_, ⟨{}, _, rfl, rfl⟩, ?_⟩
  · intro e he
    obtain rfl := List.mem_singleton.mp he
    rintro ⟨params, upload, ⟨io, hinput, -⟩, -⟩
    cases hinput
  · rintro ⟨content, hcontent, -, hlength⟩
    rw [← Option.some.inj hcontent] at hlength
    exact absurd hlength (by decide)

end ChunkManager

end VHono
