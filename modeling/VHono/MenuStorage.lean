import VHono.FileListing
import VHono.JsonLists
import VHono.MenuForest

/-! # The permissions of a stored menu

    The list of permissions is written as JSON into a literal in double quotes,
    and its own quotes are written as two apostrophes each.  Between double
    quotes these stand for themselves: the text that is stored is no JSON any
    more, and what is read back is the empty list. -/

namespace VHono

open ByteString SqliteLexer SqlPart SqlCall

/-! ## The table -/

/-- A row of `menu_items`; its permissions are a text. -/
structure MenuRow where
  id          : Int
  name        : ByteString
  path        : ByteString
  icon        : ByteString
  parentId    : Int
  sortOrder   : Int
  permissions : ByteString
  status      : Int
  createdAt   : Int
  updatedAt   : Int
  deriving DecidableEq, Repr

/-- The table, with its primary key. -/
structure MenuTable where
  rows     : List MenuRow
  distinct : (rows.map MenuRow.id).Nodup

namespace MenuRow

/-- `ORDER BY parent_id, sort_order` -/
def rank (row : MenuRow) : Int ×ₗ Int := toLex (row.parentId, row.sortOrder)

variable (decode : ByteString → Option (List ByteString))

/-- `json2.decode[[]string](permissions_str) or { []string{} }` -/
def permissionList (row : MenuRow) : List ByteString := (decode row.permissions).getD []

/-- The menu that is read from a row. -/
def read (row : MenuRow) : MenuItem where
  id := printedInt row.id
  name := row.name
  path := row.path
  icon := row.icon
  parentId := printedInt row.parentId
  sortOrder := printedInt row.sortOrder
  permissions := row.permissionList decode
  status := decide (printedInt row.status = 1)
  createdAt := 0
  updatedAt := 0
  children := []

end MenuRow

def getAllMenuItems (decode : ByteString → Option (List ByteString))
    (answer : Except ByteString (List MenuRow)) : Except ByteString (List MenuItem) :=
  match answer with
  | .error err => .error (ascii "Failed to query all menu items: " ++ err)
  | .ok rows => .ok (rows.map (MenuRow.read decode))

/-! ## The insertion -/

/-- The arguments of `create_menu_item`. -/
structure MenuArgs where
  name        : ByteString
  path        : ByteString
  icon        : ByteString
  parentId    : Int
  sortOrder   : Int
  permissions : List ByteString
  deriving DecidableEq, Repr

/-- The statement, with its last literal written in some way. -/
def menuInsert (name path icon : ByteString) (parentId sortOrder : Int) (permissions : SqlPart)
    (createdAt updatedAt : Int) : List SqlPart :=
  [text (ascii "INSERT INTO menu_items (name, path, icon, parent_id, sort_order, " ++
      ascii "permissions, status, created_at, updated_at) VALUES (")] ++
    values [double name, double path, double icon, number parentId, number sortOrder,
      permissions] ++
    [text (ascii ", 1, "), number createdAt, text (ascii ", "), number updatedAt, text (ascii ")")]

namespace MenuArgs

variable (lib : SqlLibrary) (args : MenuArgs) (now : Int)

def statement : List SqlPart :=
  menuInsert args.name args.path args.icon args.parentId args.sortOrder
    (replaced (lib.jsonEncode args.permissions)) now now

/-- It is the first statement of the call. -/
theorem statements_eq :
    (createMenuItem args.name args.path args.icon args.parentId args.sortOrder args.permissions
      now).statements lib = [args.statement lib now, [text (ascii "SELECT last_insert_rowid()")]] :=
  rfl

/-- What is answered: whether the insertion went well, and the id of the last row. -/
def create (inserted : Except ByteString Unit) (id : Except ByteString Int) :
    Except ByteString MenuItem :=
  match inserted with
  | .error err => .error (ascii "Failed to create menu item: " ++ err)
  | .ok () =>
    match id with
    | .error err => .error (ascii "Failed to get menu ID: " ++ err)
    | .ok id =>
      .ok { id := printedInt id
            name := args.name
            path := args.path
            icon := args.icon
            parentId := args.parentId
            sortOrder := args.sortOrder
            permissions := args.permissions
            status := true
            createdAt := now
            updatedAt := now
            children := [] }

end MenuArgs

/-- The tokens of the statement that inserts the row. -/
def MenuRow.tokens (row : MenuRow) : List Token :=
  (menuInsert row.name row.path row.icon row.parentId row.sortOrder (double row.permissions)
    row.createdAt row.updatedAt).flatMap (SqlPart.intended .lenient)

/-- SQLite stores a row by a statement that is lexed as its insertion.  A name in double quotes that
    is none of a column is taken for a string. -/
structure StoresMenu (t : MenuTable) (statement : List SqlPart) (row : MenuRow) (t' : MenuTable) :
    Prop where
  lexed  : lex (renderSql statement) = row.tokens
  status : row.status = 1
  rows   : t'.rows = t.rows ++ [row]

/-- After the menu was created, all menus have it with the permissions it was given. -/
def PermissionsSurvive (lib : SqlLibrary) (decode : ByteString → Option (List ByteString))
    (args : MenuArgs) (now : Int) : Prop :=
  ∀ (t t' : MenuTable) (row : MenuRow) (created : MenuItem) (s : List MenuRow),
    args.create now (.ok ()) (.ok row.id) = .ok created → StoresMenu t (args.statement lib now) row t' →
      OffsetPages.OrderedBy MenuRow.rank false t'.rows s →
        ∃ items, getAllMenuItems decode (.ok s) = .ok items ∧ row.read decode ∈ items ∧
          (row.read decode).permissions = args.permissions

/-- What is used of `json2`: the text of a list is JSON without blanks, and a string begins with a
    quote and with no apostrophe. -/
structure WritesLists (encode : List ByteString → ByteString)
    (decode : ByteString → Option (List ByteString)) : Prop where
  empty   : encode [] = ascii "[]"
  cons    : ∀ p l, ∃ rest, encode (p :: l) = ascii "[\"" ++ rest
  zero    : ∀ l, 0 ∉ encode l
  inverse : ∀ l, decode (encode l) = some l
  refuses : ∀ rest, decode (ascii "['" ++ rest) = none

/-- Neither a quote nor a NUL byte ends the literal of the text. -/
def Unbroken (s : ByteString) : Prop := byte '"' ∉ s ∧ 0 ∉ s

/-! ## The statement as it is lexed -/

namespace MenuArgs

variable {lib : SqlLibrary} {decode : ByteString → Option (List ByteString)} {args : MenuArgs}
  {now : Int}

/-- The text between the quotes of the last literal. -/
def storedText (lib : SqlLibrary) (args : MenuArgs) : ByteString :=
  replaceStr (lib.jsonEncode args.permissions) (ascii "\"") (ascii "''")

/-- The row that the statement inserts. -/
def storedRow (lib : SqlLibrary) (args : MenuArgs) (now id : Int) : MenuRow where
  id := id
  name := args.name
  path := args.path
  icon := args.icon
  parentId := args.parentId
  sortOrder := args.sortOrder
  permissions := args.storedText lib
  status := 1
  createdAt := now
  updatedAt := now

/-- No quote is left, and no other byte is added. -/
theorem unbroken_storedText (h : 0 ∉ lib.jsonEncode args.permissions) :
    Unbroken (args.storedText lib) := by
  have hmem : ∀ b ∈ args.storedText lib,
      b = byte '\'' ∨ b ∈ lib.jsonEncode args.permissions ∧ b ≠ byte '"' := by
    intro b hb
    rw [storedText, show ascii "\"" = [byte '"'] from rfl, replaceStr_byte, List.mem_flatMap] at hb
    obtain ⟨c, hc, hb⟩ := hb
    split at hb
    · exact Or.inl (List.eq_of_mem_replicate (n := 2) hb)
    · rename_i hquote
      rw [List.mem_singleton.mp hb]
      exact Or.inr ⟨hc, hquote⟩
  constructor
  · intro hquote
    rcases hmem _ hquote with heq | ⟨-, hne⟩
    · exact absurd heq (by decide)
    · exact hne rfl
  · intro hzero
    rcases hmem _ hzero with heq | ⟨hin, -⟩
    · exact absurd heq (by decide)
    · exact h hin

theorem lex_statement (hname : Unbroken args.name) (hpath : Unbroken args.path)
    (hicon : Unbroken args.icon) (hzero : 0 ∉ lib.jsonEncode args.permissions) (id : Int) :
    lex (renderSql (args.statement lib now)) = (args.storedRow lib now id).tokens := by
  have hstored := unbroken_storedText hzero
  have hformed : WellFormed (menuInsert args.name args.path args.icon args.parentId args.sortOrder
      (double (args.storedText lib)) now now) :=
    wellFormed_insert closes_two rfl rfl
      (.text closes_literal (.value rfl rfl (.text closes_literal (.value rfl rfl (.last _)))))
  have hdouble : ∀ {s : ByteString}, Unbroken s → (double s).Clean .lenient := by
    intro s hs
    exact ⟨fun h => absurd h (by decide), hs.1, hs.2⟩
  refine (intact_iff_of_wellFormed .lenient hformed).mpr fun p hp => ?_
  rcases List.mem_append.mp hp with hp | hp
  · rcases List.mem_append.mp hp with hp | hp
    · rw [List.mem_singleton.mp hp]
      trivial
    · have hparts : values [double args.name, double args.path, double args.icon,
          number args.parentId, number args.sortOrder, double (args.storedText lib)]
          = [double args.name, text (ascii ", "), double args.path, text (ascii ", "),
            double args.icon, text (ascii ", "), number args.parentId, text (ascii ", "),
            number args.sortOrder, text (ascii ", "), double (args.storedText lib)] := rfl
      rw [hparts] at hp
      simp only [List.mem_cons, List.not_mem_nil, or_false] at hp
      rcases hp with rfl | rfl | rfl | rfl | rfl | rfl | rfl | rfl | rfl | rfl | rfl
      · exact hdouble hname
      · trivial
      · exact hdouble hpath
      · trivial
      · exact hdouble hicon
      · trivial
      · trivial
      · trivial
      · trivial
      · trivial
      · exact hdouble hstored
  · simp only [List.mem_cons, List.not_mem_nil, or_false] at hp
    rcases hp with rfl | rfl | rfl | rfl | rfl
    · trivial
    · trivial
    · trivial
    · trivial
    · trivial

end MenuArgs

/-- The text of a quoted name. -/
def quotedName : Token → Option ByteString
  | .name s => some s
  | _ => none

theorem quotedName_signed (n : Int) : (signed n).filterMap quotedName = [] := by
  rw [signed]
  split
  · rfl
  · rfl

/-- The texts of a row are read off its tokens. -/
theorem quotedName_tokens (row : MenuRow) :
    row.tokens.filterMap quotedName = [row.name, row.path, row.icon, row.permissions] := by
  have hhead : (lex (ascii "INSERT INTO menu_items (name, path, icon, parent_id, sort_order, " ++
      ascii "permissions, status, created_at, updated_at) VALUES (")).filterMap quotedName = [] := by
    decide +kernel
  have hcomma : (lex (ascii ", ")).filterMap quotedName = [] := by decide
  have hone : (lex (ascii ", 1, ")).filterMap quotedName = [] := by decide
  have hend : (lex (ascii ")")).filterMap quotedName = [] := by decide
  have hparts : values [double row.name, double row.path, double row.icon,
      number row.parentId, number row.sortOrder, double row.permissions]
      = [double row.name, text (ascii ", "), double row.path, text (ascii ", "),
        double row.icon, text (ascii ", "), number row.parentId, text (ascii ", "),
        number row.sortOrder, text (ascii ", "), double row.permissions] := rfl
  have hdouble : ∀ s : ByteString, ((double s).intended .lenient).filterMap quotedName = [s] :=
    fun _ => rfl
  rw [MenuRow.tokens, menuInsert, hparts, List.filterMap_flatMap]
  simp only [List.flatMap_append, List.flatMap_cons, List.flatMap_nil, hdouble]
  simp only [SqlPart.intended, hhead, hcomma, hone, hend, quotedName_signed, List.nil_append,
    List.append_nil]
  rfl

/-! ## What is read back -/

section Survival

variable {lib : SqlLibrary} {decode : ByteString → Option (List ByteString)} {args : MenuArgs}
  {now : Int}

/-- A list that is not empty is stored as a text that is no list. -/
theorem decode_storedText (json : WritesLists lib.jsonEncode decode) (h : args.permissions ≠ []) :
    decode (args.storedText lib) = none := by
  obtain ⟨p, l, hlist⟩ := List.exists_cons_of_ne_nil h
  obtain ⟨rest, hrest⟩ := json.cons p l
  have hstored : args.storedText lib
      = ascii "['" ++ (ascii "'" ++ replaceStr rest (ascii "\"") (ascii "''")) := by
    rw [MenuArgs.storedText, hlist, hrest, show ascii "\"" = [byte '"'] from rfl, replaceStr_byte,
      replaceStr_byte, List.flatMap_append]
    rfl
  rw [hstored]
  exact json.refuses _

/-- The text of the empty list has no quote. -/
theorem storedText_nil (json : WritesLists lib.jsonEncode decode) (h : args.permissions = []) :
    args.storedText lib = lib.jsonEncode [] := by
  rw [MenuArgs.storedText, h, json.empty]
  decide

theorem not_permissionsSurvive (json : WritesLists lib.jsonEncode decode)
    (hname : Unbroken args.name) (hpath : Unbroken args.path) (hicon : Unbroken args.icon)
    (hne : args.permissions ≠ []) : ¬ PermissionsSurvive lib decode args now := by
  intro hsurvive
  have hlex : lex (renderSql (args.statement lib now)) = (args.storedRow lib now 1).tokens :=
    args.lex_statement hname hpath hicon (json.zero args.permissions) 1
  obtain ⟨s, hs⟩ := OffsetPages.exists_orderedBy MenuRow.rank false [args.storedRow lib now 1]
  obtain ⟨-, -, -, hperm⟩ := hsurvive ⟨[], List.nodup_nil⟩
    ⟨[args.storedRow lib now 1], List.nodup_singleton _⟩ (args.storedRow lib now 1) _ s rfl
    ⟨hlex, rfl, rfl⟩ hs
  have hlost : (decode (args.storedText lib)).getD [] = args.permissions := hperm
  rw [decode_storedText json hne] at hlost
  exact hne hlost.symm

/-- Permissions survive exactly if there are none. -/
theorem permissionsSurvive_iff (json : WritesLists lib.jsonEncode decode)
    (hname : Unbroken args.name) (hpath : Unbroken args.path) (hicon : Unbroken args.icon) :
    PermissionsSurvive lib decode args now ↔ args.permissions = [] := by
  constructor
  · intro hsurvive
    by_contra hne
    exact not_permissionsSurvive json hname hpath hicon hne hsurvive
  · intro hnil t t' row created s _ hstores hs
    have hlex : lex (renderSql (args.statement lib now))
        = (args.storedRow lib now row.id).tokens :=
      args.lex_statement hname hpath hicon (json.zero args.permissions) row.id
    have htexts := quotedName_tokens row
    rw [← hstores.lexed, hlex, quotedName_tokens] at htexts
    have hpermissions : args.storedText lib = row.permissions :=
      (List.cons.inj (List.cons.inj (List.cons.inj (List.cons.inj htexts).2).2).2).1
    refine ⟨_, rfl, List.mem_map_of_mem (hs.perm.mem_iff.mpr ?_), ?_⟩
    · rw [hstores.rows]
      exact List.mem_concat_self
    · show (decode row.permissions).getD [] = args.permissions
      rw [← hpermissions, storedText_nil json hnil, json.inverse, hnil]
      rfl

end Survival

/-- `JsonLists` writes lists as JSON is written. -/
theorem writesLists_jsonLists : WritesLists JsonLists.encode JsonLists.decode where
  empty := by decide
  cons := JsonLists.encode_cons
  zero := JsonLists.zero_not_mem_encode
  inverse := JsonLists.decode_encode
  refuses := JsonLists.decode_apostrophe

/-- A menu without permissions. -/
def openMenu : MenuArgs :=
  ⟨ascii "Start", ascii "/start", ascii "home", 0, 1, []⟩

/-- A menu for those who may read. -/
def readersMenu : MenuArgs := { openMenu with permissions := [ascii "read"] }

theorem unbroken_openMenu :
    Unbroken openMenu.name ∧ Unbroken openMenu.path ∧ Unbroken openMenu.icon := by
  unfold Unbroken
  decide

theorem permissionsSurvive_openMenu :
    PermissionsSurvive ⟨fun _ => [], JsonLists.encode⟩ JsonLists.decode openMenu 0 :=
  (permissionsSurvive_iff writesLists_jsonLists unbroken_openMenu.1 unbroken_openMenu.2.1
    unbroken_openMenu.2.2).mpr rfl

/-- The permission to read is stored as a text that is no JSON. -/
theorem read_permission_lost :
    ¬ ∀ (lib : SqlLibrary) (decode : ByteString → Option (List ByteString)) (args : MenuArgs)
      (now : Int), WritesLists lib.jsonEncode decode → Unbroken args.name → Unbroken args.path →
        Unbroken args.icon → PermissionsSurvive lib decode args now := by
  intro h
  have hunbroken : Unbroken readersMenu.name ∧ Unbroken readersMenu.path
      ∧ Unbroken readersMenu.icon := unbroken_openMenu
  obtain ⟨hname, hpath, hicon⟩ := hunbroken
  have hne : readersMenu.permissions ≠ [] := List.cons_ne_nil _ _
  exact not_permissionsSurvive writesLists_jsonLists hname hpath hicon hne
    (h ⟨fun _ => [], JsonLists.encode⟩ JsonLists.decode readersMenu 0 writesLists_jsonLists
      hname hpath hicon)

end VHono
