import VHono.FileService

/-! # Files across provider switches

    A record says in which kind of storage its object is, but a download and a
    deletion ask the provider that is current.  A ledger remembers, for each
    file that is uploaded and not deleted, the provider that took it and its
    content; the service serves every file of the ledger as long as each switch
    leads to a provider that has the same objects, and no upload and no deletion
    touches the object of another file. -/

namespace VHono

open ByteString MachineRuns

namespace FileService

variable {π κ : Type}

/-! ## What the property says -/

/-- A file as it was uploaded. -/
structure Holding (π : Type) where
  provider : π
  bucket   : ByteString
  key      : ByteString
  data     : ByteString

/-- The files that are uploaded and not deleted. -/
abbrev Ledger (π : Type) := ByteString → Option (Holding π)

/-- The service with its ledger. -/
abbrev Kept (π κ : Type) := FileService π κ × Ledger π

/-- The ledger after a call. -/
def note (ledger : Ledger π) (provider : π) (call : FileCall) (output : FileOutput) : Ledger π :=
  match call, output with
  | .upload _ _ data, .uploaded (.ok result) =>
    Function.update ledger result.fileUuid
      (some ⟨provider, result.bucket, result.objectKey, data⟩)
  | .delete _ fileUuid, .deleted (.ok _) => Function.update ledger fileUuid none
  | _, _ => ledger

/-- The object of a file in the provider that took it. -/
def heldObject (fs : FileService π κ) (h : Holding π) : Option ByteString :=
  fs.objects h.provider (fs.providers.locate h.provider h.bucket h.key)

/-- Every file is downloaded as it was uploaded. -/
def Serves (s : Kept π κ) : Prop :=
  ∀ fileUuid h, s.2 fileUuid = some h → s.1.downloadFile {} fileUuid = .ok h.data

/-- A call that is safe:  an upload stores what the record that names the same object, if there
    is one, has there already; a switch goes to a provider that has the same objects for all
    records; a deletion is made at the provider that took the file, no other record names the
    object, and the record goes with it. -/
def SafeFileCall (s : Kept π κ) (call : FileCall) : Prop :=
  match call with
  | .upload io params data => s.1.Stores io data → ∀ fileUuid info,
      s.1.db.files.get? fileUuid = some info →
      s.1.locate info.bucket info.objectKey
        = s.1.locate (s.1.bucketOf params) (s.1.keyOf io params data) →
      s.1.object info.bucket info.objectKey = some data
  | .switch create config => (validateStorageConfig config).valid = true → create = none →
      ∀ fileUuid info, s.1.db.files.get? fileUuid = some info →
        ({ s.1 with provider := s.1.providers.create config } : FileService π κ).object
            info.bucket info.objectKey
          = s.1.object info.bucket info.objectKey
  | .delete io fileUuid => ∀ info, s.1.Removes io fileUuid info →
      io.deleteRow = none ∧
      (∀ other info', s.1.db.files.get? other = some info' → other ≠ fileUuid →
        s.1.locate info'.bucket info'.objectKey ≠ s.1.locate info.bucket info.objectKey) ∧
      ∀ h, s.2 fileUuid = some h → h.provider = s.1.provider

/-! ## Ledger, records and objects -/

/-- The ledger lists the records. -/
def Linked (s : Kept π κ) : Prop :=
  ∀ fileUuid, (s.2 fileUuid).map (fun h => (h.bucket, h.key))
    = (s.1.db.files.get? fileUuid).map (fun info => (info.bucket, info.objectKey))

/-- The provider that took a file has its object. -/
def Holds (s : Kept π κ) : Prop :=
  ∀ fileUuid h, s.2 fileUuid = some h → heldObject s.1 h = some h.data

variable {s : Kept π κ}

theorem Linked.record (hlinked : Linked s) {fileUuid : ByteString} {h : Holding π}
    (hh : s.2 fileUuid = some h) : ∃ info, s.1.db.files.get? fileUuid = some info ∧
      info.bucket = h.bucket ∧ info.objectKey = h.key := by
  have heq := hlinked fileUuid
  rw [hh] at heq
  obtain ⟨info, hget, hpair⟩ := Option.map_eq_some_iff.mp heq.symm
  obtain ⟨hbucket, hkey⟩ := Prod.mk.inj hpair
  exact ⟨info, hget, hbucket, hkey⟩

theorem Linked.holding (hlinked : Linked s) {fileUuid : ByteString} {info : FileInfo}
    (hget : s.1.db.files.get? fileUuid = some info) : ∃ h, s.2 fileUuid = some h ∧
      info.bucket = h.bucket ∧ info.objectKey = h.key := by
  have heq := hlinked fileUuid
  rw [hget] at heq
  obtain ⟨h, hh, hpair⟩ := Option.map_eq_some_iff.mp heq
  obtain ⟨hbucket, hkey⟩ := Prod.mk.inj hpair
  exact ⟨h, hh, hbucket.symm, hkey.symm⟩

theorem downloadFile_eq (fs : FileService π κ) {fileUuid : ByteString} {info : FileInfo}
    (hget : fs.db.files.get? fileUuid = some info) (data : ByteString) :
    fs.downloadFile {} fileUuid = .ok data ↔ fs.object info.bucket info.objectKey = some data := by
  rw [downloadFile, UploadTables.getFileByUuid_of_get hget]
  show fs.providerDownload none info.bucket info.objectKey = .ok data ↔ _
  rw [providerDownload]
  cases fs.object info.bucket info.objectKey with
  | none =>
      constructor
      · intro h
        cases h
      · intro h
        cases h
  | some content =>
      dsimp only
      rw [Except.ok.injEq, Option.some.injEq]

/-- Files are served from the current provider. -/
theorem Linked.serves_iff (hlinked : Linked s) :
    Serves s ↔ ∀ fileUuid h, s.2 fileUuid = some h → s.1.object h.bucket h.key = some h.data := by
  constructor
  · intro hserves fileUuid h hh
    obtain ⟨info, hget, hbucket, hkey⟩ := hlinked.record hh
    rw [← hbucket, ← hkey]
    exact (s.1.downloadFile_eq hget h.data).mp (hserves fileUuid h hh)
  · intro hobjects fileUuid h hh
    obtain ⟨info, hget, hbucket, hkey⟩ := hlinked.record hh
    refine (s.1.downloadFile_eq hget h.data).mpr ?_
    rw [hbucket, hkey]
    exact hobjects fileUuid h hh

/-- The object of a file at the current provider is the one that provider took. -/
theorem heldObject_current {fs : FileService π κ} {h : Holding π} (hp : h.provider = fs.provider) :
    heldObject fs h = fs.object h.bucket h.key := by
  rw [heldObject, hp]
  rfl

theorem locate_congr {fs fs' : FileService π κ} (hprovider : fs'.provider = fs.provider)
    (hproviders : fs'.providers = fs.providers) (bucket key : ByteString) :
    fs'.locate bucket key = fs.locate bucket key := by
  rw [locate, locate, hprovider, hproviders]

/-! ## The step -/

variable [DecidableEq π] [DecidableEq κ]

def ledgerStep (s : Kept π κ) (call : FileCall) : Kept π κ × FileOutput :=
  let out := s.1.step call
  ((out.1, note s.2 s.1.provider call out.2), out.2)

/-- A deletion that succeeds removes the object from the provider that took the file. -/
def RemovesHeld (e : Event (Kept π κ) FileCall FileOutput) : Prop :=
  ∀ io fileUuid h, e.input = .delete io fileUuid → e.output = .deleted (.ok ()) →
    e.before.2 fileUuid = some h → heldObject (ledgerStep e.before e.input).1.1 h = none

/-- What the current provider has after one object is replaced. -/
theorem object_after {fs fs' : FileService π κ} {bucket key : ByteString}
    {content : Option ByteString} (hprovider : fs'.provider = fs.provider)
    (hproviders : fs'.providers = fs.providers)
    (hobjects : fs'.objects = (fs.setObject bucket key content).objects) (b k : ByteString) :
    fs'.object b k
      = if fs.locate b k = fs.locate bucket key then content else fs.object b k := by
  rw [object, locate, hprovider, hproviders, hobjects, setObject_objects]
  simp only [true_and]
  rfl

theorem heldObject_after {fs fs' : FileService π κ} {bucket key : ByteString}
    {content : Option ByteString} (hproviders : fs'.providers = fs.providers)
    (hobjects : fs'.objects = (fs.setObject bucket key content).objects) (h : Holding π) :
    heldObject fs' h
      = if h.provider = fs.provider ∧ fs.locate h.bucket h.key = fs.locate bucket key then content
        else heldObject fs h := by
  rw [heldObject, hproviders, hobjects, setObject_objects]
  by_cases hp : h.provider = fs.provider
  · rw [heldObject, hp]
    simp only [true_and]
    rfl
  · rw [if_neg (fun hc => hp hc.1), if_neg (fun hc => hp hc.1)]
    rfl

/-- Files keep their content in the providers that took them, if those that the current provider
    took are served after one of its objects has been replaced. -/
theorem Holds.after (hholds : Holds s) {s' : Kept π κ} {bucket key : ByteString}
    {content : Option ByteString} (hprovider : s'.1.provider = s.1.provider)
    (hproviders : s'.1.providers = s.1.providers)
    (hobjects : s'.1.objects = (s.1.setObject bucket key content).objects)
    (hserves : ∀ fileUuid h, s'.2 fileUuid = some h → s'.1.object h.bucket h.key = some h.data)
    (hledger : ∀ fileUuid h, s'.2 fileUuid = some h → h.provider ≠ s.1.provider →
      s.2 fileUuid = some h) : Holds s' := by
  intro fileUuid h hh
  by_cases hp : h.provider = s.1.provider
  · rw [heldObject_current (hp.trans hprovider.symm)]
    exact hserves fileUuid h hh
  · rw [heldObject_after hproviders hobjects, if_neg (fun hc => hp hc.1)]
    exact hholds fileUuid h (hledger fileUuid h hh hp)

/-- **THE STEP OF AN UPLOAD.** -/
theorem upload_step (hlinked : Linked s) (hholds : Holds s) (hserves : Serves s) (io : UploadIo)
    (params : UploadParams) (data : ByteString) :
    Linked (ledgerStep s (.upload io params data)).1 ∧
    (SafeFileCall s (.upload io params data) ↔ Serves (ledgerStep s (.upload io params data)).1) ∧
    (Serves (ledgerStep s (.upload io params data)).1 →
      Holds (ledgerStep s (.upload io params data)).1) := by
  obtain ⟨hprovider, hproviders, hcases⟩ := s.1.uploadFile_spec io params data
  have hledger : ∀ out, (s.1.uploadFile io params data).2 = out →
      (ledgerStep s (.upload io params data)).1
        = ((s.1.uploadFile io params data).1,
            note s.2 s.1.provider (.upload io params data) (.uploaded out)) := by
    rintro out rfl
    rfl
  rcases hcases with ⟨hnot, hsame, herror⟩ | ⟨hstores, hobjects, hrows⟩
  · -- nothing is stored
    have hstate : (ledgerStep s (.upload io params data)).1 = s := by
      cases hout : (s.1.uploadFile io params data).2 with
      | error err =>
          rw [hledger _ hout, hsame]
          rfl
      | ok result => exact absurd hout (herror result)
    rw [hstate]
    refine ⟨hlinked, ⟨fun _ => hserves, ?_⟩, fun _ => hholds⟩
    intro _ hstores
    exact absurd hstores hnot
  · have hserves' := hlinked.serves_iff.mp hserves
    have hobject := object_after hprovider hproviders hobjects
    -- the other files, in the records and in the ledger
    have hsafe : SafeFileCall s (.upload io params data) ↔
        ∀ fileUuid h, s.2 fileUuid = some h →
          (s.1.uploadFile io params data).1.object h.bucket h.key = some h.data := by
      constructor
      · intro hsafe fileUuid h hh
        rw [hobject]
        split
        · rename_i hlocate
          obtain ⟨info, hget, hbucket, hkey⟩ := hlinked.record hh
          rw [← hbucket, ← hkey] at hlocate
          have hdata := hsafe hstores fileUuid info hget hlocate
          rw [hbucket, hkey, hserves' fileUuid h hh] at hdata
          exact hdata.symm
        · exact hserves' fileUuid h hh
      · intro hall _ fileUuid info hget hlocate
        obtain ⟨h, hh, hbucket, hkey⟩ := hlinked.holding hget
        have hdata := hall fileUuid h hh
        rw [hbucket, hkey] at hlocate
        rw [hobject, if_pos hlocate] at hdata
        rw [hbucket, hkey, hserves' fileUuid h hh, hdata]
    rcases hrows with ⟨hfiles, herror⟩ | ⟨row, result, hout, hrow, huuid, hbucket, hkey, hfree, hfiles⟩
    · -- stored, but not recorded
      have hstate : (ledgerStep s (.upload io params data)).1
          = ((s.1.uploadFile io params data).1, s.2) := by
        cases hout : (s.1.uploadFile io params data).2 with
        | error err =>
            rw [hledger _ hout]
            rfl
        | ok result => exact absurd hout (herror result)
      have hlinked' : Linked ((s.1.uploadFile io params data).1, s.2) := by
        intro fileUuid
        rw [hfiles]
        exact hlinked fileUuid
      rw [hstate, hlinked'.serves_iff]
      refine ⟨hlinked', hsafe, ?_⟩
      intro hall
      exact hholds.after hprovider hproviders hobjects hall (fun _ _ hh _ => hh)
    · -- stored and recorded
      have hstate : (ledgerStep s (.upload io params data)).1
          = ((s.1.uploadFile io params data).1, Function.update s.2 row.fileUuid
              (some ⟨s.1.provider, s.1.bucketOf params, s.1.keyOf io params data, data⟩)) := by
        rw [hledger _ hout, note, huuid, hbucket, hkey]
      have hlinked' : Linked ((s.1.uploadFile io params data).1, Function.update s.2 row.fileUuid
          (some ⟨s.1.provider, s.1.bucketOf params, s.1.keyOf io params data, data⟩)) := by
        intro fileUuid
        rw [hfiles, InsertionMap.get?_insert]
        dsimp only
        rw [Function.update_apply]
        split
        · rw [hrow]
          rfl
        · exact hlinked fileUuid
      have hnew : s.2 row.fileUuid = none := by
        have heq := hlinked row.fileUuid
        rw [hfree] at heq
        exact Option.map_eq_none_iff.mp heq
      rw [hstate, hlinked'.serves_iff]
      refine ⟨hlinked', hsafe.trans ?_, ?_⟩
      · constructor
        · intro hall fileUuid h hh
          dsimp only at hh
          rw [Function.update_apply] at hh
          split at hh
          · obtain rfl := Option.some.inj hh
            rw [hobject, if_pos rfl]
          · exact hall fileUuid h hh
        · intro hall fileUuid h hh
          refine hall fileUuid h ?_
          dsimp only
          rw [Function.update_of_ne]
          · exact hh
          · rintro rfl
            exact nomatch hnew.symm.trans hh
      · intro hall
        refine hholds.after hprovider hproviders hobjects hall ?_
        intro fileUuid h hh hp
        dsimp only at hh
        rw [Function.update_apply] at hh
        split at hh
        · obtain rfl := Option.some.inj hh
          exact absurd rfl hp
        · exact hh

/-- **THE STEP OF A SWITCH.** -/
theorem switch_step (hlinked : Linked s) (hholds : Holds s) (hserves : Serves s)
    (create : Option ByteString) (config : StorageConfig) :
    Linked (ledgerStep s (.switch create config)).1 ∧
    (SafeFileCall s (.switch create config) ↔ Serves (ledgerStep s (.switch create config)).1) ∧
    (Serves (ledgerStep s (.switch create config)).1 →
      Holds (ledgerStep s (.switch create config)).1) := by
  have hserves' := hlinked.serves_iff.mp hserves
  by_cases hswitches : (validateStorageConfig config).valid = true ∧ create = none
  · -- the provider that is current now
    obtain ⟨hvalid, rfl⟩ := hswitches
    have hstate : (ledgerStep s (.switch none config)).1
        = ({ s.1 with provider := s.1.providers.create config, currentConfig := config }, s.2) := by
      rw [ledgerStep, step, switchProvider]
      dsimp only
      rw [if_neg (by rw [hvalid]; decide)]
      rfl
    have hlinked' : Linked (κ := κ)
        ({ s.1 with provider := s.1.providers.create config, currentConfig := config }, s.2) :=
      hlinked
    rw [hstate, hlinked'.serves_iff]
    refine ⟨hlinked', ?_, fun _ => hholds⟩
    constructor
    · intro hsafe fileUuid h hh
      obtain ⟨info, hget, hbucket, hkey⟩ := hlinked.record hh
      have hsame := hsafe hvalid rfl fileUuid info hget
      rw [hbucket, hkey, hserves' fileUuid h hh] at hsame
      exact hsame
    · intro hall _ _ fileUuid info hget
      obtain ⟨h, hh, hbucket, hkey⟩ := hlinked.holding hget
      rw [hbucket, hkey, hserves' fileUuid h hh]
      exact hall fileUuid h hh
  · have hstate : (ledgerStep s (.switch create config)).1 = s := by
      show ((s.1.switchProvider create config).1, s.2) = s
      rw [s.1.switchProvider_same hswitches]
    rw [hstate]
    refine ⟨hlinked, ⟨fun _ => hserves, ?_⟩, fun _ => hholds⟩
    intro _ hvalid hcreate
    exact absurd ⟨hvalid, hcreate⟩ hswitches

/-- **THE STEP OF A DELETION.** -/
theorem delete_step (hlinked : Linked s) (hholds : Holds s) (hserves : Serves s) (io : DeleteIo)
    (fileUuid : ByteString) :
    Linked (ledgerStep s (.delete io fileUuid)).1 ∧
    (SafeFileCall s (.delete io fileUuid) ↔ Serves (ledgerStep s (.delete io fileUuid)).1 ∧
      ((s.1.deleteFile io fileUuid).2 = .ok () → ∀ h, s.2 fileUuid = some h →
        heldObject (s.1.deleteFile io fileUuid).1 h = none)) ∧
    (Serves (ledgerStep s (.delete io fileUuid)).1 →
      Holds (ledgerStep s (.delete io fileUuid)).1) := by
  have hserves' := hlinked.serves_iff.mp hserves
  obtain ⟨hprovider, hproviders, hcases⟩ := s.1.deleteFile_spec io fileUuid
  have hledger : ∀ out, (s.1.deleteFile io fileUuid).2 = out →
      (ledgerStep s (.delete io fileUuid)).1 = ((s.1.deleteFile io fileUuid).1,
        note s.2 s.1.provider (.delete io fileUuid) (.deleted out)) := by
    rintro out rfl
    rfl
  rcases hcases with ⟨hnot, hsame, herror⟩ | ⟨info, hremoves, hobjects, hrows⟩
  · -- nothing is removed
    have hstate : (ledgerStep s (.delete io fileUuid)).1 = s := by
      cases hout : (s.1.deleteFile io fileUuid).2 with
      | error err =>
          rw [hledger _ hout, hsame]
          rfl
      | ok result => exact absurd hout herror
    rw [hstate]
    refine ⟨hlinked, ⟨fun _ => ⟨hserves, fun hok => absurd hok herror⟩, ?_⟩, fun _ => hholds⟩
    intro _ info hremoves
    exact absurd hremoves (hnot info)
  · have hobject := object_after hprovider hproviders hobjects
    obtain ⟨h₀, hh₀, hbucket₀, hkey₀⟩ := hlinked.holding hremoves.2.1
    rcases hrows with ⟨hrow, hfiles, herror⟩ | ⟨hrow, hfiles, hok⟩
    · -- the record is left behind
      have hstate : (ledgerStep s (.delete io fileUuid)).1
          = ((s.1.deleteFile io fileUuid).1, s.2) := by
        cases hout : (s.1.deleteFile io fileUuid).2 with
        | error err =>
            rw [hledger _ hout]
            rfl
        | ok result => exact absurd hout herror
      have hlinked' : Linked ((s.1.deleteFile io fileUuid).1, s.2) := by
        intro other
        rw [hfiles]
        exact hlinked other
      have hlost : ¬ Serves ((s.1.deleteFile io fileUuid).1, s.2) := by
        intro hserves''
        have hdata := hlinked'.serves_iff.mp hserves'' fileUuid h₀ hh₀
        rw [hobject, if_pos (by rw [hbucket₀, hkey₀])] at hdata
        cases hdata
      rw [hstate]
      refine ⟨hlinked', ⟨?_, fun h => absurd h.1 hlost⟩, fun h => absurd h hlost⟩
      intro hsafe
      exact absurd (hsafe info hremoves).1 hrow
    · -- the record goes too
      have hstate : (ledgerStep s (.delete io fileUuid)).1
          = ((s.1.deleteFile io fileUuid).1, Function.update s.2 fileUuid none) := by
        rw [hledger _ hok]
        rfl
      have hlinked' :
          Linked ((s.1.deleteFile io fileUuid).1, Function.update s.2 fileUuid none) := by
        intro other
        rw [hfiles, InsertionMap.get?_erase]
        dsimp only
        rw [Function.update_apply]
        split
        · rfl
        · exact hlinked other
      have hothers : Serves ((s.1.deleteFile io fileUuid).1, Function.update s.2 fileUuid none) ↔
          ∀ other info', s.1.db.files.get? other = some info' → other ≠ fileUuid →
            s.1.locate info'.bucket info'.objectKey ≠ s.1.locate info.bucket info.objectKey := by
        rw [hlinked'.serves_iff]
        constructor
        · intro hall other info' hget hne hlocate
          obtain ⟨h, hh, hbucket, hkey⟩ := hlinked.holding hget
          have hdata := hall other h (by rw [← hh]; exact Function.update_of_ne hne _ _)
          rw [hbucket, hkey] at hlocate
          rw [hobject, if_pos hlocate] at hdata
          cases hdata
        · intro hall other h hh
          dsimp only at hh
          rw [Function.update_apply] at hh
          split at hh
          · cases hh
          · rename_i hne
            obtain ⟨info', hget, hbucket, hkey⟩ := hlinked.record hh
            have hlocate := hall other info' hget hne
            rw [hbucket, hkey] at hlocate
            rw [hobject, if_neg hlocate]
            exact hserves' other h hh
      -- the provider that took the file loses its object only if it is the current one
      have hheld : heldObject (s.1.deleteFile io fileUuid).1 h₀ = none ↔
          h₀.provider = s.1.provider := by
        rw [heldObject_after hproviders hobjects]
        constructor
        · intro hnone
          by_contra hne
          rw [if_neg (fun hc => hne hc.1), hholds fileUuid h₀ hh₀] at hnone
          cases hnone
        · intro hp
          rw [if_pos ⟨hp, by rw [hbucket₀, hkey₀]⟩]
      rw [hstate]
      refine ⟨hlinked', ?_, ?_⟩
      · rw [hothers]
        constructor
        · intro hsafe
          obtain ⟨-, hdistinct, hcurrent⟩ := hsafe info hremoves
          refine ⟨hdistinct, ?_⟩
          intro _ h hh
          obtain rfl := Option.some.inj (hh₀.symm.trans hh)
          exact hheld.mpr (hcurrent h₀ hh)
        · rintro ⟨hdistinct, hremoved⟩ info' hremoves'
          obtain rfl := Option.some.inj (hremoves.2.1.symm.trans hremoves'.2.1)
          refine ⟨hrow, hdistinct, ?_⟩
          intro h hh
          obtain rfl := Option.some.inj (hh₀.symm.trans hh)
          exact hheld.mp (hremoved hok h₀ hh)
      · intro hserves''
        refine hholds.after hprovider hproviders hobjects (hlinked'.serves_iff.mp hserves'') ?_
        intro other h hh _
        dsimp only at hh
        rw [Function.update_apply] at hh
        split at hh
        · cases hh
        · exact hh

/-- The files are linked, held and served. -/
structure Sound (s : Kept π κ) : Prop where
  linked : Linked s
  holds  : Holds s
  serves : Serves s

/-- **THE STEP LEMMA.**  From a sound state a call is safe exactly if every file is served after
    it, and what it deletes is removed where it is. -/
theorem ledgerStep_spec (h : Sound s) (past : List FileCall) (call : FileCall) :
    (SafeFileCall s call ↔ Serves (ledgerStep s call).1 ∧
      RemovesHeld ⟨past, s, call, (ledgerStep s call).2⟩) ∧
    (Serves (ledgerStep s call).1 → Sound (ledgerStep s call).1) := by
  cases call with
  | upload io params data =>
      obtain ⟨hlinked, hsafe, hholds⟩ := upload_step h.linked h.holds h.serves io params data
      refine ⟨?_, fun hserves => ⟨hlinked, hholds hserves, hserves⟩⟩
      rw [hsafe]
      exact ⟨fun hserves => ⟨hserves, fun _ _ _ hinput => (by cases hinput)⟩, fun hboth => hboth.1⟩
  | switch create config =>
      obtain ⟨hlinked, hsafe, hholds⟩ := switch_step h.linked h.holds h.serves create config
      refine ⟨?_, fun hserves => ⟨hlinked, hholds hserves, hserves⟩⟩
      rw [hsafe]
      exact ⟨fun hserves => ⟨hserves, fun _ _ _ hinput => (by cases hinput)⟩, fun hboth => hboth.1⟩
  | delete io fileUuid =>
      obtain ⟨hlinked, hsafe, hholds⟩ := delete_step h.linked h.holds h.serves io fileUuid
      refine ⟨?_, fun hserves => ⟨hlinked, hholds hserves, hserves⟩⟩
      rw [hsafe]
      refine and_congr_right (fun _ => ?_)
      constructor
      · rintro hremoved io' fileUuid' h' hinput houtput hh
        obtain ⟨rfl, rfl⟩ := FileCall.delete.inj hinput
        exact hremoved (FileOutput.deleted.inj houtput) h' hh
      · intro hremoved hok h' hh
        exact hremoved io fileUuid h' rfl (congrArg FileOutput.deleted hok) hh

/-! ## A file left behind -/

/-- One provider of each type, with objects by bucket and key. -/
def sampleProviders : Providers StorageType (ByteString × ByteString) where
  create config := config.storageType
  providerName := StorageType.str
  locate _ bucket key := (bucket, key)

/-- The digest of `abc`. -/
def abcDigest : ByteString :=
  [0x90, 0x01, 0x50, 0x98, 0x3c, 0xd2, 0x4f, 0xb0, 0xd6, 0x96, 0x3f, 0x7d, 0x28, 0xe1, 0x7f, 0x72]

/-- A service over empty providers, the local storage first. -/
def sampleService : FileService StorageType (ByteString × ByteString) :=
  new sampleProviders (fun _ => abcDigest) {} {} (fun _ _ => none)

/-- The upload of `abc` as a text file, under an id. -/
def sampleUpload (fileUuid : String) : FileCall :=
  .upload { datePrefix := ascii "2024/01/02", insert := { fileUuid := ascii fileUuid } }
    ⟨[], ascii "a.txt", [], []⟩ (ascii "abc")

def sampleS3 : StorageConfig where
  storageType := .s3
  s3 := { endpoint := ascii "s3.example", accessKey := ascii "key", secretKey := ascii "secret",
          defaultBucket := ascii "files" }

end FileService

end VHono
