import VHono.ProviderSwitches

/-! # Deleting one file and downloading another

    The key of an object is made of the day, the content's hash and the
    extension, so that two uploads of one content on one day share an object,
    and each has a record of its own.  Deleting one of them takes the object
    from both.  Files are isolated from each other's deletion as long as no
    upload makes a record for an object that has one. -/

namespace VHono

open ByteString MachineRuns

/-- The calls at one provider. -/
inductive ObjectCall
  | upload (io : FileService.UploadIo) (params : UploadParams) (data : ByteString)
  | delete (io : FileService.DeleteIo) (fileUuid : ByteString)

def ObjectCall.call : ObjectCall → FileCall
  | upload io params data => .upload io params data
  | delete io fileUuid => .delete io fileUuid

namespace FileService

variable {π κ : Type} [DecidableEq π] [DecidableEq κ]

def objectStep (fs : FileService π κ) (c : ObjectCall) : FileService π κ × FileOutput :=
  fs.step c.call

/-! ## What the property says -/

/-- Deleting a file leaves what every other file downloads. -/
def Isolating (fs : FileService π κ) : Prop :=
  ∀ u₁ u₂ info₁ info₂, u₁ ≠ u₂ → fs.db.files.get? u₁ = some info₁ →
    fs.db.files.get? u₂ = some info₂ → ∀ io data, fs.downloadFile {} u₂ = .ok data →
    (fs.deleteFile io u₁).1.downloadFile {} u₂ = .ok data

/-- The call makes no record for an object that has one. -/
def MakesNoShare (fs : FileService π κ) (c : ObjectCall) : Prop :=
  ∀ io params data result, c = .upload io params data →
    (fs.uploadFile io params data).2 = .ok result → ∀ fileUuid info,
    fs.db.files.get? fileUuid = some info →
    fs.locate info.bucket info.objectKey
      ≠ fs.locate (fs.bucketOf params) (fs.keyOf io params data)

/-- No two records name one object. -/
def Unshared (fs : FileService π κ) : Prop :=
  ∀ u₁ u₂ info₁ info₂, fs.db.files.get? u₁ = some info₁ → fs.db.files.get? u₂ = some info₂ →
    fs.locate info₁.bucket info₁.objectKey = fs.locate info₂.bucket info₂.objectKey → u₁ = u₂

variable {fs : FileService π κ}

/-- Where no object is shared, a deletion takes nothing from another file. -/
theorem Unshared.isolating (h : Unshared fs) : Isolating fs := by
  intro u₁ u₂ info₁ info₂ hne hget₁ hget₂ io data hdata
  obtain ⟨hprovider, hproviders, hcases⟩ := fs.deleteFile_spec io u₁
  rw [fs.downloadFile_eq hget₂] at hdata
  rcases hcases with ⟨-, hsame, -⟩ | ⟨info, ⟨-, hget, -⟩, hobjects, hrows⟩
  · rw [hsame, fs.downloadFile_eq hget₂]
    exact hdata
  · obtain rfl := Option.some.inj (hget₁.symm.trans hget)
    have hfiles : (fs.deleteFile io u₁).1.db.files.get? u₂ = some info₂ := by
      rcases hrows with ⟨-, hfiles, -⟩ | ⟨-, hfiles, -⟩
      · rw [hfiles]
        exact hget₂
      · rw [hfiles, InsertionMap.get?_erase, if_neg (Ne.symm hne)]
        exact hget₂
    rw [downloadFile_eq _ hfiles, object_after hprovider hproviders hobjects, if_neg]
    · exact hdata
    · intro hlocate
      exact hne (h u₂ u₁ info₂ info₁ hget₂ hget₁ hlocate).symm

/-- **THE STEP LEMMA.**  A call that makes no share keeps the objects unshared. -/
theorem unshared_step (h : Unshared fs) {c : ObjectCall} (hc : fs.MakesNoShare c) :
    Unshared (fs.objectStep c).1 := by
  cases c with
  | upload io params data =>
      obtain ⟨hprovider, hproviders, hcases⟩ := fs.uploadFile_spec io params data
      show Unshared (fs.uploadFile io params data).1
      intro u₁ u₂ info₁ info₂ hget₁ hget₂ hlocate
      rw [locate_congr hprovider hproviders, locate_congr hprovider hproviders] at hlocate
      rcases hcases with ⟨-, hsame, -⟩ | ⟨-, -, hrows⟩
      · rw [hsame] at hget₁ hget₂
        exact h u₁ u₂ info₁ info₂ hget₁ hget₂ hlocate
      · rcases hrows with ⟨hfiles, -⟩ | ⟨row, result, hok, hrow, -, -, -, -, hfiles⟩
        · rw [hfiles] at hget₁ hget₂
          exact h u₁ u₂ info₁ info₂ hget₁ hget₂ hlocate
        · have hfresh := hc io params data result rfl hok
          have hbucket : row.bucket = fs.bucketOf params := by rw [hrow]; rfl
          have hkey : row.objectKey = fs.keyOf io params data := by rw [hrow]; rfl
          rw [hfiles, InsertionMap.get?_insert] at hget₁ hget₂
          split at hget₁
          · obtain rfl := Option.some.inj hget₁
            split at hget₂
            · rename_i h₁ h₂
              exact h₁.trans h₂.symm
            · rw [hbucket, hkey] at hlocate
              exact absurd hlocate.symm (hfresh u₂ info₂ hget₂)
          · split at hget₂
            · obtain rfl := Option.some.inj hget₂
              rw [hbucket, hkey] at hlocate
              exact absurd hlocate (hfresh u₁ info₁ hget₁)
            · exact h u₁ u₂ info₁ info₂ hget₁ hget₂ hlocate
  | delete io fileUuid =>
      obtain ⟨hprovider, hproviders, hcases⟩ := fs.deleteFile_spec io fileUuid
      show Unshared (fs.deleteFile io fileUuid).1
      have hfiles : ∀ u info, (fs.deleteFile io fileUuid).1.db.files.get? u = some info →
          fs.db.files.get? u = some info := by
        intro u info hget
        rcases hcases with ⟨-, hsame, -⟩ | ⟨-, -, -, ⟨-, hfiles, -⟩ | ⟨-, hfiles, -⟩⟩
        · rw [hsame] at hget
          exact hget
        · rw [hfiles] at hget
          exact hget
        · rw [hfiles, InsertionMap.get?_erase] at hget
          split at hget
          · cases hget
          · exact hget
      intro u₁ u₂ info₁ info₂ hget₁ hget₂ hlocate
      rw [locate_congr hprovider hproviders, locate_congr hprovider hproviders] at hlocate
      exact h u₁ u₂ info₁ info₂ (hfiles u₁ info₁ hget₁) (hfiles u₂ info₂ hget₂) hlocate

/-- After an upload makes a share, deleting the new file takes the object from the other. -/
theorem not_isolating_of_share {io : UploadIo} {params : UploadParams} {data : ByteString}
    {result : UploadResult} (hok : (fs.uploadFile io params data).2 = .ok result)
    {fileUuid : ByteString} {info : FileInfo} (hget : fs.db.files.get? fileUuid = some info)
    (hshare : fs.locate info.bucket info.objectKey
      = fs.locate (fs.bucketOf params) (fs.keyOf io params data)) :
    ¬ Isolating (fs.uploadFile io params data).1 := by
  intro hisolating
  obtain ⟨hprovider, hproviders, ⟨-, -, herror⟩ | ⟨-, hobjects, hrows⟩⟩ :=
    fs.uploadFile_spec io params data
  · exact absurd hok (herror result)
  obtain ⟨-, herror⟩ | ⟨row, result', -, hrow, -, -, -, hfree, hfiles⟩ := hrows
  · exact absurd hok (herror result)
  generalize hfs' : (fs.uploadFile io params data).1 = fs' at *
  have hbucket : row.bucket = fs.bucketOf params := by rw [hrow]; rfl
  have hkey : row.objectKey = fs.keyOf io params data := by rw [hrow]; rfl
  have hne : fileUuid ≠ row.fileUuid := by
    rintro rfl
    exact nomatch hfree.symm.trans hget
  have hnew : fs'.db.files.get? row.fileUuid = some row := by
    rw [hfiles, InsertionMap.get?_insert_self]
  have hold : fs'.db.files.get? fileUuid = some info := by
    rw [hfiles, InsertionMap.get?_insert_ne _ _ hne]
    exact hget
  -- both records name the object that has just been stored
  have hobject := object_after hprovider hproviders hobjects
  have hdata : fs'.downloadFile {} fileUuid = .ok data := by
    rw [fs'.downloadFile_eq hold, hobject, if_pos hshare]
  have hafter := hisolating row.fileUuid fileUuid row info (Ne.symm hne) hnew hold {} data hdata
  obtain ⟨hprovider', hproviders', ⟨hkept, -, -⟩ | ⟨row', ⟨-, hget', -⟩, hobjects', hrows'⟩⟩ :=
    fs'.deleteFile_spec {} row.fileUuid
  · refine hkept row ⟨rfl, hnew, rfl, Or.inl ?_⟩
    rw [hbucket, hkey, hobject, if_pos rfl]
    rfl
  · obtain rfl := Option.some.inj (hnew.symm.trans hget')
    obtain ⟨habsurd, -, -⟩ | ⟨-, hfiles', -⟩ := hrows'
    · exact habsurd rfl
    · have hleft : (fs'.deleteFile {} row.fileUuid).1.db.files.get? fileUuid = some info := by
        rw [hfiles', InsertionMap.get?_erase, if_neg hne]
        exact hold
      rw [downloadFile_eq _ hleft, object_after hprovider' hproviders' hobjects', if_pos] at hafter
      · cases hafter
      · rw [locate_congr hprovider hproviders, locate_congr hprovider hproviders, hbucket, hkey]
        exact hshare

/-- One content uploaded twice on one day. -/
def sampleTwins : List ObjectCall :=
  [.upload { datePrefix := ascii "2024/01/02", insert := { fileUuid := ascii "u" } }
      ⟨[], ascii "a.txt", [], []⟩ (ascii "abc"),
    .upload { datePrefix := ascii "2024/01/02", insert := { fileUuid := ascii "v" } }
      ⟨[], ascii "b.txt", [], []⟩ (ascii "abc")]

end FileService

end VHono
