import VHono.MenuStorage

/-! # The menus of a role

    Which menus a user gets is asked of SQLite, which looks for the name of a
    permission anywhere in the text of the row; what a user may do is asked of
    the list that the text stands for.  The two agree exactly on the rows whose
    text mentions what the list has, and an administrator, who may do
    everything, gets the menus that mention a star. -/

namespace VHono

open ByteString LikePatterns

/-! ## The two questions -/

/-- `role_permissions` of a user with the role -/
def rolePermissions : UserRole → List ByteString
  | .admin => [ascii "*"]
  | .manager => [ascii "read", ascii "write", ascii "manage"]
  | .user => [ascii "read", ascii "write"]
  | .guest => [ascii "read"]

/-- The pattern of a permission. -/
def permissionPattern (permission : ByteString) : ByteString :=
  if permission = ascii "*" then ascii "%*%" else ascii "%" ++ permission ++ ascii "%"

/-- `status = 1 AND (permissions LIKE … OR …)` -/
def MenuRow.shownTo (role : UserRole) (row : MenuRow) : Bool :=
  decide (row.status = 1) &&
    (rolePermissions role).any
      (fun permission => like (permissionPattern permission) row.permissions)

/-- What SQLite answers: the rows that meet the condition, in order. -/
def MenusAnswer (t : MenuTable) (role : UserRole) (s : List MenuRow) : Prop :=
  OffsetPages.OrderedBy MenuRow.rank false (t.rows.filter (MenuRow.shownTo role)) s

def getUserMenus (decode : ByteString → Option (List ByteString))
    (answer : Except ByteString (List MenuRow)) : Except ByteString (List MenuItem) :=
  match answer with
  | .error err => .error (ascii "Failed to query menu items: " ++ err)
  | .ok rows => .ok (rows.map (MenuRow.read decode))

def checkPermission (role : UserRole) (requiredPermission : ByteString) : Bool :=
  match role with
  | .admin => true
  | .manager => decide (requiredPermission ∈ [ascii "read", ascii "write", ascii "manage"])
  | .user => decide (requiredPermission ∈ [ascii "read", ascii "write"])
  | .guest => decide (requiredPermission = ascii "read")

/-! ## What should be returned -/

/-- A role that another one includes. -/
def UserRole.rank : UserRole → Nat
  | .guest => 0
  | .user => 1
  | .manager => 2
  | .admin => 3

/-- The menu of the row is one of those returned. -/
def Returned (decode : ByteString → Option (List ByteString)) (row : MenuRow)
    (rows : List MenuRow) : Prop :=
  ∃ items, getUserMenus decode (.ok rows) = .ok items ∧ (row, row.read decode) ∈ rows.zip items

/-- A greater role gets the menus of a lesser one, and a menu that is switched on is returned to
    those who have one of its permissions. -/
structure MenusRight (decode : ByteString → Option (List ByteString)) (t : MenuTable) : Prop where
  grow  : ∀ {role role' : UserRole} {s s' : List MenuRow}, role.rank ≤ role'.rank →
    MenusAnswer t role s → MenusAnswer t role' s' →
      ∀ row, Returned decode row s → Returned decode row s'
  exact : ∀ {role : UserRole} {s : List MenuRow}, MenusAnswer t role s →
    ∀ row ∈ t.rows, row.status = 1 →
      (Returned decode row s
        ↔ ∃ permission ∈ row.permissionList decode, checkPermission role permission = true)

/-! ## Which rows agree with their texts -/

/-- The text has the word somewhere, in either case. -/
def Mentions (word text : ByteString) : Prop :=
  (word.map UInt8.toNat) <:+: (chars text).map fold

/-- The text mentions a permission of a role exactly if the list has one, and a star exactly if the
    list has anything. -/
structure TextAgrees (decode : ByteString → Option (List ByteString)) (row : MenuRow) : Prop where
  words : ∀ role : UserRole, role ≠ .admin →
    ((∃ word ∈ rolePermissions role, Mentions word row.permissions)
      ↔ ∃ word ∈ rolePermissions role, word ∈ row.permissionList decode)
  star  : Mentions (ascii "*") row.permissions ↔ row.permissionList decode ≠ []

/-- The words of the statement match what mentions them. -/
theorem like_permission {word : ByteString} (hascii : IsAscii word)
    (hplain : LikePatterns.IsPlain (word.map UInt8.toNat)) (text : ByteString) :
    like (ascii "%" ++ word ++ ascii "%") text = true ↔ Mentions word text := by
  have hpercent : IsAscii (ascii "%") := by
    rw [IsAscii]
    decide
  rw [like, List.append_assoc, chars_append hpercent, chars_append hascii]
  exact isLike_within hplain (chars text)

theorem rolePermissions_plain (role : UserRole) : ∀ word ∈ rolePermissions role,
    IsAscii word ∧ LikePatterns.IsPlain (word.map UInt8.toNat) := by
  have hall : ∀ word ∈ [ascii "read", ascii "write", ascii "manage", ascii "*"],
      IsAscii word ∧ LikePatterns.IsPlain (word.map UInt8.toNat) := by
    unfold IsAscii LikePatterns.IsPlain
    decide
  intro word hword
  refine hall word ?_
  cases role with
  | admin => exact List.mem_of_mem_getLast? (List.mem_singleton.mp hword ▸ rfl)
  | manager => exact List.mem_append_left [ascii "*"] hword
  | user => exact List.mem_append_left [ascii "manage", ascii "*"] hword
  | guest => exact List.mem_append_left [ascii "write", ascii "manage", ascii "*"] hword

theorem permissionPattern_eq (permission : ByteString) :
    permissionPattern permission = ascii "%" ++ permission ++ ascii "%" := by
  rw [permissionPattern]
  split
  · rename_i h
    rw [h]
    rfl
  · rfl

theorem shownTo_iff {role : UserRole} {row : MenuRow} :
    row.shownTo role = true
      ↔ row.status = 1 ∧ ∃ word ∈ rolePermissions role, Mentions word row.permissions := by
  rw [MenuRow.shownTo, Bool.and_eq_true, decide_eq_true_iff, List.any_eq_true]
  refine and_congr_right fun _ => exists_congr fun word => and_congr_right fun hword => ?_
  obtain ⟨hascii, hplain⟩ := rolePermissions_plain role word hword
  rw [permissionPattern_eq]
  exact like_permission hascii hplain _

theorem returned_iff {decode : ByteString → Option (List ByteString)} {row : MenuRow}
    {rows : List MenuRow} : Returned decode row rows ↔ row ∈ rows := by
  constructor
  · rintro ⟨items, -, hmem⟩
    exact (List.of_mem_zip hmem).1
  · intro hmem
    have hzip : rows.zip (rows.map (MenuRow.read decode))
        = rows.map (fun row => (row, row.read decode)) := by
      have hmap := List.zip_map' (f := id) (g := MenuRow.read decode) (l := rows)
      rw [List.map_id] at hmap
      exact hmap
    refine ⟨_, rfl, ?_⟩
    rw [hzip]
    exact List.mem_map_of_mem hmem

theorem returned_answer_iff {decode : ByteString → Option (List ByteString)} {t : MenuTable}
    {role : UserRole} {s : List MenuRow} (h : MenusAnswer t role s) {row : MenuRow} :
    Returned decode row s ↔ row ∈ t.rows ∧ row.shownTo role = true :=
  returned_iff.trans (h.perm.mem_iff.trans List.mem_filter)

/-- What a role may do. -/
theorem checkPermission_iff {role : UserRole} (h : role ≠ .admin) (permission : ByteString) :
    checkPermission role permission = true ↔ permission ∈ rolePermissions role := by
  cases role with
  | admin => exact absurd rfl h
  | manager => exact decide_eq_true_iff
  | user => exact decide_eq_true_iff
  | guest => exact decide_eq_true_iff.trans List.mem_singleton.symm

theorem rolePermissions_mono {role role' : UserRole} (h : role.rank ≤ role'.rank)
    (hadmin : role' ≠ .admin) : rolePermissions role ⊆ rolePermissions role' := by
  cases role' with
  | admin => exact absurd rfl hadmin
  | manager => cases role <;> first | exact absurd h (by decide) | decide
  | user => cases role <;> first | exact absurd h (by decide) | decide
  | guest => cases role <;> first | exact absurd h (by decide) | decide

section

variable {decode : ByteString → Option (List ByteString)} {t : MenuTable} {row : MenuRow}

/-- Somebody with the role has a permission of the menu. -/
theorem exists_checkPermission_iff {role : UserRole} (h : role ≠ .admin) :
    (∃ permission ∈ row.permissionList decode, checkPermission role permission = true)
      ↔ ∃ word ∈ rolePermissions role, word ∈ row.permissionList decode := by
  constructor
  · rintro ⟨permission, hmem, hcheck⟩
    exact ⟨permission, (checkPermission_iff h permission).mp hcheck, hmem⟩
  · rintro ⟨word, hword, hmem⟩
    exact ⟨word, hmem, (checkPermission_iff h word).mpr hword⟩

theorem exists_checkPermission_admin :
    (∃ permission ∈ row.permissionList decode, checkPermission .admin permission = true)
      ↔ row.permissionList decode ≠ [] := by
  rw [Ne, List.eq_nil_iff_forall_not_mem, not_forall]
  exact exists_congr fun _ => (and_iff_left rfl).trans not_not.symm

theorem exists_mentions_admin {text : ByteString} :
    (∃ word ∈ rolePermissions .admin, Mentions word text) ↔ Mentions (ascii "*") text := by
  simp [rolePermissions]

/-- On a row that is switched on, the statement agrees with the permissions for every role exactly
    if the text agrees with the list. -/
theorem textAgrees_iff (hstatus : row.status = 1) :
    TextAgrees decode row ↔ ∀ role, row.shownTo role = true
      ↔ ∃ permission ∈ row.permissionList decode, checkPermission role permission = true := by
  constructor
  · intro h role
    rw [shownTo_iff, and_iff_right hstatus]
    by_cases hadmin : role = .admin
    · rw [hadmin, exists_checkPermission_admin, ← h.star]
      exact exists_mentions_admin
    · rw [exists_checkPermission_iff hadmin]
      exact h.words role hadmin
  · intro h
    refine ⟨fun role hadmin => ?_, ?_⟩
    · rw [← exists_checkPermission_iff hadmin, ← h role, shownTo_iff, and_iff_right hstatus]
    · rw [← exists_checkPermission_admin, ← h .admin, shownTo_iff, and_iff_right hstatus]
      exact exists_mentions_admin.symm

end

/-- The menus are right exactly if the texts of the rows that are switched on agree with their
    lists. -/
theorem menusRight_iff (decode : ByteString → Option (List ByteString)) (t : MenuTable) :
    MenusRight decode t ↔ ∀ row ∈ t.rows, row.status = 1 → TextAgrees decode row := by
  constructor
  · intro h row hrow hstatus
    refine (textAgrees_iff hstatus).mpr fun role => ?_
    obtain ⟨s, hs⟩ := OffsetPages.exists_orderedBy MenuRow.rank false
      (t.rows.filter (MenuRow.shownTo role))
    rw [← h.exact hs row hrow hstatus, returned_answer_iff hs]
    exact (and_iff_right hrow).symm
  · intro h
    have hexact : ∀ {role : UserRole} {row : MenuRow}, row ∈ t.rows → row.status = 1 →
        (row.shownTo role = true
          ↔ ∃ permission ∈ row.permissionList decode, checkPermission role permission = true) :=
      fun hrow hstatus => (textAgrees_iff hstatus).mp (h _ hrow hstatus) _
    constructor
    · intro role role' s s' hle hs hs' row hreturned
      obtain ⟨hrow, hshown⟩ := (returned_answer_iff hs).mp hreturned
      refine (returned_answer_iff hs').mpr ⟨hrow, ?_⟩
      obtain ⟨hstatus, word, hword, hmentions⟩ := shownTo_iff.mp hshown
      by_cases hadmin : role' = .admin
      · -- whoever is shown the row has one of its permissions
        obtain ⟨permission, hmem, -⟩ := (hexact hrow hstatus).mp hshown
        rw [hadmin, hexact hrow hstatus]
        exact ⟨permission, hmem, rfl⟩
      · exact shownTo_iff.mpr
          ⟨hstatus, word, rolePermissions_mono hle hadmin hword, hmentions⟩
    · intro role s hs row hrow hstatus
      rw [← hexact hrow hstatus, returned_answer_iff hs]
      exact and_iff_right hrow

/-- A menu for those who may read, in a table of its own. -/
def readersTable : MenuTable where
  rows := [⟨1, ascii "Start", ascii "/start", ascii "home", 0, 1, ascii "[\"read\"]", 1, 0, 0⟩]
  distinct := List.nodup_singleton _

/-- Guests are shown the menu and administrators are not. -/
theorem admin_not_shown : ¬ ∀ t : MenuTable, MenusRight JsonLists.decode t := by
  intro h
  have hanswer : ∀ s, MenusAnswer readersTable .admin s → s = [] := by
    intro s hs
    exact List.perm_nil.mp (hs.perm.trans (by decide +kernel))
  obtain ⟨s, hs⟩ := OffsetPages.exists_orderedBy MenuRow.rank false
    (readersTable.rows.filter (MenuRow.shownTo .admin))
  have hreturned := (h readersTable).exact hs _ List.mem_cons_self rfl
  rw [returned_iff, hanswer s hs] at hreturned
  exact absurd (hreturned.mpr ⟨ascii "read", by decide +kernel, rfl⟩) List.not_mem_nil

end VHono
