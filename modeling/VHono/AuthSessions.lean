import VHono.UserMenus
import VHono.FilePaging
import VHono.UploadProgress

/-! # Accounts and sessions

    `create_user`, `login`, `verify_token` and `logout` over the tables of the
    users and of their sessions.  The arguments stand in double quotes, where
    SQLite looks for a column of that name before it takes a text: a token or a
    name that is called like a column is compared with the column itself. -/

namespace VHono

open ByteString MachineRuns ChunkManager

/-! ## The arguments -/

/-- Columns of numbers, which SQLite does not compare as texts, and names of the row id. -/
def numberColumns : List ByteString :=
  [ascii "id", ascii "user_id", ascii "status", ascii "created_at", ascii "updated_at",
   ascii "expires_at", ascii "rowid", ascii "oid", ascii "_rowid_"]

/-- An argument that its literal leaves as it is, and that names no number. -/
structure SqlText where
  text     : ByteString
  unquoted : byte '"' ∉ text
  unended  : (0 : UInt8) ∉ text
  no_number : toLower text ∉ numberColumns

/-- The value of a word in double quotes: the column of that name, or else the word. -/
def columnOr (columns : List (ByteString × ByteString)) (word : ByteString) : ByteString :=
  (columns.lookup (toLower word)).getD word

/-! ## The tables -/

/-- A row of `users`. -/
structure UserRow where
  id           : Nat
  username     : ByteString
  email        : ByteString
  passwordHash : ByteString
  role         : ByteString
  status       : Int
  createdAt    : Int
  updatedAt    : Int
  deriving DecidableEq, Repr

/-- A session, and its row of `user_sessions` without the id, which nothing reads. -/
structure UserSession where
  userId    : Int
  token     : ByteString
  expiresAt : Int
  createdAt : Int
  deriving DecidableEq, Repr

structure User where
  id           : Int
  username     : ByteString
  email        : ByteString
  passwordHash : ByteString
  role         : UserRole
  status       : Bool
  createdAt    : Int
  updatedAt    : Int
  deriving DecidableEq, Repr

def UserRow.columns (u : UserRow) : List (ByteString × ByteString) :=
  [(ascii "username", u.username), (ascii "email", u.email),
   (ascii "password_hash", u.passwordHash), (ascii "role", u.role)]

def UserSession.columns (s : UserSession) : List (ByteString × ByteString) :=
  [(ascii "token", s.token)]

/-- The role of a text, as `verify_token` reads it. -/
def readRole (role : ByteString) : UserRole :=
  if role = ascii "admin" then .admin
  else if role = ascii "manager" then .manager
  else if role = ascii "user" then .user
  else if role = ascii "guest" then .guest
  else .guest

/-- The user that `verify_token` reads from a row. -/
def UserRow.read (u : UserRow) : User where
  id := printedInt u.id
  username := u.username
  email := u.email
  passwordHash := u.passwordHash
  role := readRole u.role
  status := decide (printedInt u.status = 1)
  createdAt := 0
  updatedAt := 0

/-- The tables with their constraints, and the last id that was given to a user. -/
structure AuthTables where
  users      : List UserRow
  sessions   : List UserSession
  lastUserId : Nat
  ids        : (users.map UserRow.id).Nodup
  ids_le     : ∀ u ∈ users, u.id ≤ lastUserId
  usernames  : (users.map UserRow.username).Nodup
  emails     : (users.map UserRow.email).Nodup
  tokens     : (sessions.map UserSession.token).Nodup

namespace AuthTables

/-- The tables that `init_tables` creates. -/
def empty : AuthTables where
  users := []
  sessions := []
  lastUserId := 0
  ids := List.nodup_nil
  ids_le := List.forall_mem_nil _
  usernames := List.nodup_nil
  emails := List.nodup_nil
  tokens := List.nodup_nil

/-- What `UNIQUE` asks of a new user. -/
def Admits (t : AuthTables) (username email : ByteString) : Prop :=
  username ∉ t.users.map UserRow.username ∧ email ∉ t.users.map UserRow.email

instance (t : AuthTables) (username email : ByteString) : Decidable (t.Admits username email) := by
  unfold Admits
  infer_instance

theorem nodup_map_snoc {α β : Type} {f : α → β} {l : List α} {a : α} (h : (l.map f).Nodup)
    (ha : f a ∉ l.map f) : ((l ++ [a]).map f).Nodup := by
  rw [List.map_append, List.nodup_append]
  refine ⟨h, List.nodup_singleton _, ?_⟩
  intro x hx y hy hxy
  rw [List.map_singleton, List.mem_singleton] at hy
  rw [hxy, hy] at hx
  exact ha hx

/-- The table of users with one more, under the next id. -/
def insertUser (t : AuthTables) (u : UserRow) (hid : u.id = t.lastUserId + 1)
    (h : t.Admits u.username u.email) : AuthTables where
  users := t.users ++ [u]
  sessions := t.sessions
  lastUserId := t.lastUserId + 1
  ids := nodup_map_snoc t.ids (by
    intro hmem
    obtain ⟨v, hv, hvid⟩ := List.mem_map.mp hmem
    have hle := t.ids_le v hv
    omega)
  ids_le := by
    intro v hv
    rcases List.mem_append.mp hv with hv | hv
    · exact Nat.le_succ_of_le (t.ids_le v hv)
    · rw [List.mem_singleton.mp hv, hid]
  usernames := nodup_map_snoc t.usernames h.1
  emails := nodup_map_snoc t.emails h.2
  tokens := t.tokens

def insertSession (t : AuthTables) (s : UserSession)
    (h : s.token ∉ t.sessions.map UserSession.token) : AuthTables :=
  { t with
    sessions := t.sessions ++ [s]
    tokens := nodup_map_snoc t.tokens h }

def deleteSessions (t : AuthTables) (p : UserSession → Bool) : AuthTables :=
  { t with
    sessions := t.sessions.filter (fun s => !p s)
    tokens := t.tokens.sublist (List.Sublist.map _ List.filter_sublist) }

end AuthTables

/-! ## The calls -/

/-- What a call meets: the errors of its statements in their order, what the driver says of a row
    that breaks a constraint, the random bytes, and the order in which rows are answered. -/
structure AuthIo where
  first      : Option ByteString
  second     : Option ByteString
  refusal    : ByteString
  random     : Option ByteString
  order      : List UserRow → List UserRow
  order_perm : ∀ rows, (order rows).Perm rows

inductive AuthCall
  | createUser (now : Int) (io : AuthIo) (username email : SqlText) (password : ByteString)
      (role : UserRole)
  | login (now : Int) (io : AuthIo) (username : SqlText) (password : ByteString)
  | verifyToken (now : Int) (io : AuthIo) (token : SqlText)
  | logout (io : AuthIo) (token : SqlText)

/-- The time of a call that looks at the clock. -/
def AuthCall.now? : AuthCall → Option Int
  | .createUser now .. => some now
  | .login now .. => some now
  | .verifyToken now .. => some now
  | .logout .. => none

inductive AuthOutput
  | created (result : Except ByteString User)
  | session (result : Except ByteString UserSession)
  | verified (result : Except ByteString User)
  | ended (result : Except ByteString Unit)

namespace AuthTables

variable (sha256 : ByteString → ByteString)

def hashPassword (password : ByteString) : ByteString := LocalStorage.hexStr (sha256 password)

/-- The row of a user who is created. -/
def newUser (t : AuthTables) (now : Int) (username email password : ByteString) (role : UserRole) :
    UserRow where
  id := t.lastUserId + 1
  username := username
  email := email
  passwordHash := hashPassword sha256 password
  role := role.str
  status := 1
  createdAt := toInt now
  updatedAt := toInt now

def createUser (t : AuthTables) (now : Int) (io : AuthIo) (username email : SqlText)
    (password : ByteString) (role : UserRole) : AuthTables × Except ByteString User :=
  match io.first with
  | some err => (t, .error (ascii "Failed to create user: " ++ err))
  | none =>
    if h : t.Admits username.text email.text then
      let u := t.newUser sha256 now username.text email.text password role
      let t' := t.insertUser u rfl h
      match io.second with
      -- the user stays in the table
      | some err => (t', .error (ascii "Failed to get user ID: " ++ err))
      | none =>
        (t', .ok { id := printedInt u.id
                   username := username.text
                   email := email.text
                   passwordHash := u.passwordHash
                   role := role
                   status := true
                   createdAt := toInt now
                   updatedAt := toInt now })
    else (t, .error (ascii "Failed to create user: " ++ io.refusal))

/-- `username = "…" AND password_hash = "…" AND status = 1` -/
def loginMatches (username passwordHash : ByteString) (u : UserRow) : Bool :=
  decide (u.username = columnOr u.columns username ∧
    u.passwordHash = columnOr u.columns passwordHash ∧ u.status = 1)

def login (t : AuthTables) (now : Int) (io : AuthIo) (username : SqlText) (password : ByteString) :
    AuthTables × Except ByteString UserSession :=
  match io.first with
  | some err => (t, .error (ascii "Failed to query user: " ++ err))
  | none =>
    match io.order (t.users.filter (loginMatches username.text (hashPassword sha256 password))) with
    | [] => (t, .error (ascii "Invalid username or password"))
    | u :: _ =>
      let s : UserSession :=
        { userId := printedInt u.id
          token := generateHex io.random
          expiresAt := toInt (toInt now + 24 * 60 * 60)
          createdAt := toInt now }
      match io.second with
      | some err => (t, .error (ascii "Failed to create session: " ++ err))
      | none =>
        if h : s.token ∉ t.sessions.map UserSession.token then (t.insertSession s h, .ok s)
        else (t, .error (ascii "Failed to create session: " ++ io.refusal))

/-- `s.token = "…" AND s.expires_at > … AND u.status = 1` -/
def verifyMatches (now : Int) (token : ByteString) (u : UserRow) (s : UserSession) : Bool :=
  decide (s.token = columnOr (u.columns ++ s.columns) token ∧ s.expiresAt > toInt now ∧
    u.status = 1)

/-- The users of the rows of `users u JOIN user_sessions s ON u.id = s.user_id` that match. -/
def verifyRows (t : AuthTables) (now : Int) (token : ByteString) : List UserRow :=
  t.users.flatMap (fun u =>
    (t.sessions.filter (fun s =>
      decide ((u.id : Int) = s.userId) && verifyMatches now token u s)).map (fun _ => u))

def verifyToken (t : AuthTables) (now : Int) (io : AuthIo) (token : SqlText) :
    Except ByteString User :=
  match io.first with
  | some err => .error (ascii "Failed to verify token: " ++ err)
  | none =>
    match io.order (t.verifyRows now token.text) with
    | [] => .error (ascii "Invalid or expired token")
    | u :: _ => .ok u.read

/-- `token = "…"` -/
def logoutMatches (token : ByteString) (s : UserSession) : Bool :=
  decide (s.token = columnOr s.columns token)

def logout (t : AuthTables) (io : AuthIo) (token : SqlText) : AuthTables × Except ByteString Unit :=
  match io.first with
  | some err => (t, .error (ascii "Failed to logout: " ++ err))
  | none => (t.deleteSessions (logoutMatches token.text), .ok ())

def step (t : AuthTables) : AuthCall → AuthTables × AuthOutput
  | .createUser now io username email password role =>
    let out := t.createUser sha256 now io username email password role
    (out.1, .created out.2)
  | .login now io username password =>
    let out := t.login sha256 now io username password
    (out.1, .session out.2)
  | .verifyToken now io token => (t, .verified (t.verifyToken now io token))
  | .logout io token =>
    let out := t.logout io token
    (out.1, .ended out.2)

end AuthTables

/-! ## The statements -/

/-- The call with the statements that it builds, given the id of the user that it finds. -/
def AuthCall.sqlCall (userId : Int) : AuthCall → SqlCall
  | .createUser now _ username email password role =>
    .createUser username.text email.text password role (toInt now)
  | .login now io username password =>
    .login username.text password userId io.random (toInt now)
  | .verifyToken now _ token => .verifyToken token.text (toInt now)
  | .logout _ token => .logout token.text

theorem clean_text (s : ByteString) : (SqlPart.text s).Clean .lenient := trivial

theorem clean_number (n : Int) : (SqlPart.number n).Clean .lenient := trivial

theorem clean_double {arg : ByteString} (hquote : byte '"' ∉ arg) (hzero : (0 : UInt8) ∉ arg) :
    (SqlPart.double arg).Clean .lenient :=
  ⟨(fun h => by cases h), hquote, hzero⟩

theorem SqlText.clean (arg : SqlText) : (SqlPart.double arg.text).Clean .lenient :=
  clean_double arg.unquoted arg.unended

theorem clean_hexStr (s : ByteString) :
    (SqlPart.double (LocalStorage.hexStr s)).Clean .lenient := by
  have hhex : ∀ b ∈ LocalStorage.hexStr s, SqliteLexer.isHexDigit b = true := by
    intro b hb
    obtain ⟨c, -, hc⟩ := List.mem_flatMap.mp hb
    exact SqlCall.isHexDigit_of_mem_hexByte hc
  refine clean_double (fun hmem => ?_) (fun hmem => ?_)
  · exact absurd (hhex _ hmem) (by decide)
  · exact absurd (hhex _ hmem) (by decide)

theorem clean_role (role : UserRole) : (SqlPart.double role.str).Clean .lenient := by
  refine clean_double ?_ ?_
  · cases role <;> decide
  · cases role <;> decide

/-- SQLite reads the statements of every call as they are meant. -/
theorem intact_sqlCall (lib : SqlLibrary) (userId : Int) (c : AuthCall) :
    (c.sqlCall userId).Intact lib .lenient := by
  rw [SqlCall.intact_iff]
  cases c with
  | createUser now io username email password role =>
      have hargs := And.intro username.clean (And.intro email.clean
        (And.intro (clean_hexStr (lib.sha256 password)) (clean_role role)))
      simp [SqlCall.Clean, AuthCall.sqlCall, SqlCall.statements, SqlCall.values, hargs,
        clean_text, clean_number]
  | login now io username password =>
      have htoken : (SqlPart.double (generateHex io.random)).Clean .lenient := by
        cases io.random with
        | none => exact clean_hexStr []
        | some bytes => exact clean_hexStr bytes
      have hargs := And.intro username.clean (And.intro htoken
        (clean_hexStr (lib.sha256 password)))
      simp [SqlCall.Clean, AuthCall.sqlCall, SqlCall.statements, SqlCall.values, hargs,
        clean_text, clean_number]
  | verifyToken now io token =>
      simp [SqlCall.Clean, AuthCall.sqlCall, SqlCall.statements, token.clean, clean_text,
        clean_number]
  | logout io token =>
      simp [SqlCall.Clean, AuthCall.sqlCall, SqlCall.statements, token.clean, clean_text]

/-! ## What a call does -/

/-- What a call may do to the tables. -/
inductive AuthEffect (sha256 : ByteString → ByteString) (t : AuthTables) :
    AuthCall → AuthOutput → AuthTables → Prop
  | kept {c : AuthCall} {out : AuthOutput} (hsession : ∀ s, out ≠ .session (.ok s))
      (hcreated : ∀ u, out ≠ .created (.ok u)) (hended : out ≠ .ended (.ok ())) :
      AuthEffect sha256 t c out t
  | registered {now : Int} {io : AuthIo} {username email : SqlText} {password : ByteString}
      {role : UserRole} {result : Except ByteString User}
      (h : t.Admits username.text email.text)
      (hresult : ∀ u, result = .ok u → u.id = printedInt (t.lastUserId + 1 : Nat)) :
      AuthEffect sha256 t (.createUser now io username email password role) (.created result)
        (t.insertUser (t.newUser sha256 now username.text email.text password role) rfl h)
  | issued {now : Int} {io : AuthIo} {username : SqlText} {password : ByteString} {u : UserRow}
      {s : UserSession} (hu : u ∈ t.users)
      (hmatches : AuthTables.loginMatches username.text
        (AuthTables.hashPassword sha256 password) u = true)
      (hs : s = ⟨printedInt u.id, generateHex io.random, toInt (toInt now + 24 * 60 * 60),
        toInt now⟩)
      (h : s.token ∉ t.sessions.map UserSession.token) :
      AuthEffect sha256 t (.login now io username password) (.session (.ok s))
        (t.insertSession s h)
  | ended {io : AuthIo} {token : SqlText} :
      AuthEffect sha256 t (.logout io token) (.ended (.ok ()))
        (t.deleteSessions (AuthTables.logoutMatches token.text))

namespace AuthTables

variable {sha256 : ByteString → ByteString} {t : AuthTables}

theorem createUser_effect (now : Int) (io : AuthIo) (username email : SqlText)
    (password : ByteString) (role : UserRole) :
    AuthEffect sha256 t (.createUser now io username email password role)
      (.created (t.createUser sha256 now io username email password role).2)
      (t.createUser sha256 now io username email password role).1 := by
  rw [createUser]
  cases io.first with
  | some err => exact .kept (by simp) (by simp) (by simp)
  | none =>
      by_cases h : t.Admits username.text email.text
      · simp only [dif_pos h]
        cases io.second with
        | some err => exact .registered h (by simp)
        | none =>
            refine .registered h (fun u hu => ?_)
            rw [← Except.ok.inj hu]
            simp only [newUser]
      · simp only [dif_neg h]
        exact .kept (by simp) (by simp) (by simp)

theorem mem_of_order {io : AuthIo} {rows rest : List UserRow} {u : UserRow}
    (h : io.order rows = u :: rest) : u ∈ rows :=
  (io.order_perm rows).subset (h ▸ List.mem_cons_self ..)

theorem login_effect (now : Int) (io : AuthIo) (username : SqlText) (password : ByteString) :
    AuthEffect sha256 t (.login now io username password)
      (.session (t.login sha256 now io username password).2)
      (t.login sha256 now io username password).1 := by
  rw [login]
  cases io.first with
  | some err => exact .kept (by simp) (by simp) (by simp)
  | none =>
      cases hrows : io.order
          (t.users.filter (loginMatches username.text (hashPassword sha256 password))) with
      | nil => exact .kept (by simp) (by simp) (by simp)
      | cons u rest =>
          obtain ⟨hu, hmatches⟩ := List.mem_filter.mp (mem_of_order hrows)
          cases io.second with
          | some err => exact .kept (by simp) (by simp) (by simp)
          | none =>
              by_cases h : generateHex io.random ∉ t.sessions.map UserSession.token
              · simp only [dif_pos h]
                exact .issued hu hmatches rfl h
              · simp only [dif_neg h]
                exact .kept (by simp) (by simp) (by simp)

/-- **THE EFFECT OF A CALL.** -/
theorem step_effect (t : AuthTables) (c : AuthCall) :
    AuthEffect sha256 t c (t.step sha256 c).2 (t.step sha256 c).1 := by
  cases c with
  | createUser now io username email password role =>
      exact createUser_effect now io username email password role
  | login now io username password => exact login_effect now io username password
  | verifyToken now io token =>
      show AuthEffect sha256 t _ (.verified (t.verifyToken now io token)) t
      exact .kept (by simp) (by simp) (by simp)
  | logout io token =>
      show AuthEffect sha256 t _ (.ended (t.logout io token).2) (t.logout io token).1
      rw [logout]
      cases io.first with
      | some err => exact .kept (by simp) (by simp) (by simp)
      | none => exact .ended

end AuthTables

/-! ## Words that name no column -/

/-- The columns of texts that a statement may find. -/
def textColumns : List ByteString :=
  [ascii "username", ascii "email", ascii "password_hash", ascii "role", ascii "token"]

/-- The word is taken for a text. -/
def IsLiteral (word : ByteString) : Prop := toLower word ∉ textColumns

instance (word : ByteString) : Decidable (IsLiteral word) := by
  unfold IsLiteral
  infer_instance

theorem columnOr_of_not_mem {columns : List (ByteString × ByteString)} {word : ByteString}
    (h : toLower word ∉ columns.map Prod.fst) : columnOr columns word = word := by
  have hnone : columns.lookup (toLower word) = none := by
    rw [List.lookup_eq_none_iff]
    intro column hcolumn
    rw [bne_iff_ne]
    exact fun heq => h (List.mem_map.mpr ⟨column, hcolumn, heq.symm⟩)
  rw [columnOr, hnone]
  rfl

theorem IsLiteral.user {word : ByteString} (h : IsLiteral word) (u : UserRow) :
    columnOr u.columns word = word := by
  refine columnOr_of_not_mem (fun hmem => h ?_)
  exact List.mem_append_left [ascii "token"] hmem

theorem IsLiteral.joined {word : ByteString} (h : IsLiteral word) (u : UserRow)
    (s : UserSession) : columnOr (u.columns ++ s.columns) word = word :=
  columnOr_of_not_mem h

/-- A session's statement knows the word `token` alone. -/
theorem columnOr_session (word : ByteString) (s : UserSession) :
    columnOr s.columns word = if toLower word = ascii "token" then s.token else word := by
  by_cases h : toLower word = ascii "token"
  · rw [if_pos h, columnOr, UserSession.columns, List.lookup_cons, h, beq_self_eq_true]
    rfl
  · rw [if_neg h]
    exact columnOr_of_not_mem (fun hmem => h (List.mem_singleton.mp hmem))

theorem logoutMatches_iff {word : ByteString} {s : UserSession} :
    AuthTables.logoutMatches word s = true ↔ s.token = word ∨ toLower word = ascii "token" := by
  rw [AuthTables.logoutMatches, decide_eq_true_iff, columnOr_session]
  by_cases h : toLower word = ascii "token"
  · rw [if_pos h]
    exact iff_of_true rfl (Or.inr h)
  · rw [if_neg h]
    exact ⟨Or.inl, fun hor => hor.resolve_right h⟩

theorem isHexDigit_lower {n : Nat} (h : n < 16) :
    SqliteLexer.isHexDigit (lowerByte (LocalStorage.hexDigit n)) = true := by
  interval_cases n <;> rfl

/-- Hexadecimal digits spell no name of a column. -/
theorem isLiteral_hexStr (s : ByteString) : IsLiteral (LocalStorage.hexStr s) := by
  intro hmem
  have hdigits : ∀ b ∈ toLower (LocalStorage.hexStr s), SqliteLexer.isHexDigit b = true := by
    intro b hb
    obtain ⟨c, hc, rfl⟩ := List.mem_map.mp hb
    obtain ⟨d, -, hd⟩ := List.mem_flatMap.mp hc
    have hd256 : d.toNat < 256 := d.toNat_lt
    rcases List.mem_cons.mp hd with rfl | hd
    · exact isHexDigit_lower (by omega)
    · rw [List.mem_singleton.mp hd]
      exact isHexDigit_lower (by omega)
  have hall : ∀ name ∈ textColumns, ¬ ∀ b ∈ name, SqliteLexer.isHexDigit b = true := by decide
  exact hall _ hmem hdigits

/-! ## What the calls so far say of the tables -/

abbrev AuthEvent := Event AuthTables AuthCall AuthOutput

/-- The event returns the session. -/
def Issues (s : UserSession) (e : AuthEvent) : Prop := e.output = .session (.ok s)

/-- The event is a logout that deletes the session. -/
def Ends (s : UserSession) (e : AuthEvent) : Prop :=
  ∃ io token, e.input = .logout io token ∧ e.output = .ended (.ok ()) ∧
    AuthTables.logoutMatches token.text s = true

section History

variable (sha256 : ByteString → ByteString)

/-- The event asks for the user. -/
def Registers (u : UserRow) (r : AuthEvent) : Prop :=
  ∃ now io username email password role,
    r.input = .createUser now io username email password role ∧
      u = r.before.newUser sha256 now username.text email.text password role

/-- The event is a login of the user that returns the session. -/
def Presents (u : UserRow) (s : UserSession) (l : AuthEvent) : Prop :=
  ∃ now io username password, l.input = .login now io username password ∧
    l.output = .session (.ok s) ∧
    AuthTables.loginMatches username.text (AuthTables.hashPassword sha256 password) u = true ∧
    s = ⟨printedInt u.id, generateHex io.random, toInt (toInt now + 24 * 60 * 60), toInt now⟩

/-- What the events so far say of the tables. -/
structure Accounts (A : List AuthEvent) (t : AuthTables) : Prop where
  count    : t.lastUserId ≤ A.length
  users    : ∀ u ∈ t.users, ∃ r ∈ A, Registers sha256 u r
  created  : ∀ r ∈ A, ∀ user, r.output = .created (.ok user) →
    ∃ u ∈ t.users, Registers sha256 u r ∧ user.id = printedInt u.id
  sessions : ∀ s, s ∈ t.sessions ↔ Lasting (Issues s) (Ends s) A
  owners   : ∀ s ∈ t.sessions, ∃ u ∈ t.users, ∃ B l C, A = B ++ l :: C ∧
    (∃ r ∈ B, Registers sha256 u r) ∧ Presents sha256 u s l

end History

namespace AuthEffect

variable {sha256 : ByteString → ByteString} {t t' : AuthTables} {c : AuthCall} {out : AuthOutput}

/-- No user is ever deleted or changed. -/
theorem users_mono (h : AuthEffect sha256 t c out t') : ∀ u ∈ t.users, u ∈ t'.users := by
  intro u hu
  cases h with
  | kept _ _ _ => exact hu
  | registered _ _ => exact List.mem_append_left _ hu
  | issued _ _ _ _ => exact hu
  | ended => exact hu

theorem users_new (h : AuthEffect sha256 t c out t') (past : List AuthCall) :
    ∀ u ∈ t'.users, u ∈ t.users ∨ Registers sha256 u ⟨past, t, c, out⟩ := by
  intro u hu
  cases h with
  | kept _ _ _ => exact Or.inl hu
  | @registered now io username email password role _ _ _ =>
      rcases List.mem_append.mp hu with hu | hu
      · exact Or.inl hu
      · exact Or.inr ⟨now, io, username, email, password, role, rfl, List.mem_singleton.mp hu⟩
  | issued _ _ _ _ => exact Or.inl hu
  | ended => exact Or.inl hu

theorem count (h : AuthEffect sha256 t c out t') : t'.lastUserId ≤ t.lastUserId + 1 := by
  cases h with
  | kept _ _ _ => exact Nat.le_succ _
  | registered _ _ => exact Nat.le_refl _
  | issued _ _ _ _ => exact Nat.le_succ _
  | ended => exact Nat.le_succ _

theorem created (h : AuthEffect sha256 t c out t') (past : List AuthCall) {user : User}
    (hout : out = .created (.ok user)) :
    ∃ u ∈ t'.users, Registers sha256 u ⟨past, t, c, out⟩ ∧ user.id = printedInt u.id := by
  cases h with
  | kept _ hcreated _ => exact absurd hout (hcreated user)
  | @registered now io username email password role _ h hresult =>
      have hid := hresult user (AuthOutput.created.inj hout)
      exact ⟨_, List.mem_append_right _ (List.mem_singleton.mpr rfl),
        ⟨now, io, username, email, password, role, rfl, rfl⟩, hid⟩
  | issued _ _ _ _ => cases hout
  | ended => cases hout

theorem sessions (h : AuthEffect sha256 t c out t') (past : List AuthCall) (s : UserSession) :
    s ∈ t'.sessions ↔ Issues s ⟨past, t, c, out⟩ ∨
      (s ∈ t.sessions ∧ ¬ Ends s ⟨past, t, c, out⟩) := by
  cases h with
  | kept hsession _ hended =>
      have hends : ¬ Ends s ⟨past, t, c, out⟩ := fun ⟨_, _, _, hout, _⟩ => hended hout
      exact ⟨fun hs => Or.inr ⟨hs, hends⟩, fun hor => (hor.resolve_left (hsession s)).1⟩
  | registered _ _ =>
      refine ⟨fun hs => Or.inr ⟨hs, ?_⟩, ?_⟩
      · rintro ⟨_, _, _, hout, _⟩
        cases hout
      · rintro (hout | ⟨hs, -⟩)
        · cases hout
        · exact hs
  | @issued now io username password u s' _ _ _ _ =>
      have hends : ¬ Ends s ⟨past, t, .login now io username password, .session (.ok s')⟩ := by
        rintro ⟨_, _, _, hout, _⟩
        cases hout
      constructor
      · intro hs
        rcases List.mem_append.mp hs with hs | hs
        · exact Or.inr ⟨hs, hends⟩
        · rw [List.mem_singleton.mp hs]
          exact Or.inl rfl
      · rintro (hout | ⟨hs, -⟩)
        · rw [← Except.ok.inj (AuthOutput.session.inj hout)]
          exact List.mem_append_right _ (List.mem_singleton.mpr rfl)
        · exact List.mem_append_left _ hs
  | @ended io token =>
      have hends : Ends s ⟨past, t, .logout io token, .ended (.ok ())⟩ ↔
          AuthTables.logoutMatches token.text s = true := by
        constructor
        · rintro ⟨io', token', hin, -, hmatches⟩
          obtain ⟨-, rfl⟩ := AuthCall.logout.inj hin
          exact hmatches
        · exact fun hmatches => ⟨io, token, rfl, rfl, hmatches⟩
      rw [hends]
      show s ∈ t.sessions.filter _ ↔ _
      rw [List.mem_filter, Bool.not_eq_true', ← Bool.not_eq_true]
      refine ⟨Or.inr, ?_⟩
      rintro (hout | hs)
      · cases hout
      · exact hs

theorem issued_presents (h : AuthEffect sha256 t c out t') (past : List AuthCall)
    {s : UserSession} (hs : Issues s ⟨past, t, c, out⟩) :
    ∃ u ∈ t.users, Presents sha256 u s ⟨past, t, c, out⟩ := by
  cases h with
  | kept hsession _ _ => exact absurd hs (hsession s)
  | registered _ _ => cases hs
  | @issued now io username password u s' hu hmatches hs' _ =>
      obtain rfl := Except.ok.inj (AuthOutput.session.inj hs)
      exact ⟨u, hu, now, io, username, password, rfl, rfl, hmatches, hs'⟩
  | ended => cases hs

end AuthEffect

namespace Accounts

variable {sha256 : ByteString → ByteString} {A : List AuthEvent} {t : AuthTables}

theorem empty : Accounts sha256 [] .empty where
  count := Nat.le_refl 0
  users := List.forall_mem_nil _
  created := List.forall_mem_nil _
  sessions := fun _ => iff_of_false List.not_mem_nil (not_lasting_nil _ _)
  owners := List.forall_mem_nil _

/-- **ONE CALL.** -/
theorem step (h : Accounts sha256 A t) (past : List AuthCall) (c : AuthCall) :
    Accounts sha256 (A ++ [⟨past, t, c, (t.step sha256 c).2⟩]) (t.step sha256 c).1 := by
  have heffect : AuthEffect sha256 t c (t.step sha256 c).2 (t.step sha256 c).1 :=
    AuthTables.step_effect t c
  generalize (t.step sha256 c).1 = t' at heffect ⊢
  generalize (t.step sha256 c).2 = out at heffect ⊢
  have hlast : (⟨past, t, c, out⟩ : AuthEvent) ∈ A ++ [⟨past, t, c, out⟩] :=
    List.mem_append_right _ (List.mem_singleton.mpr rfl)
  refine ⟨?_, ?_, ?_, ?_, ?_⟩
  · have hcount := heffect.count
    have hbefore := h.count
    rw [List.length_append, List.length_singleton]
    omega
  · intro u hu
    rcases heffect.users_new past u hu with hu | hregisters
    · obtain ⟨r, hr, hregisters⟩ := h.users u hu
      exact ⟨r, List.mem_append_left _ hr, hregisters⟩
    · exact ⟨_, hlast, hregisters⟩
  · intro r hr user hout
    rcases List.mem_append.mp hr with hr | hr
    · obtain ⟨u, hu, hregisters⟩ := h.created r hr user hout
      exact ⟨u, heffect.users_mono u hu, hregisters⟩
    · rw [List.mem_singleton.mp hr] at hout ⊢
      exact heffect.created past hout
  · intro s
    rw [heffect.sessions past s, h.sessions s, lasting_snoc]
  · intro s hs
    rcases (heffect.sessions past s).mp hs with hissues | ⟨hs, -⟩
    · obtain ⟨u, hu, hpresents⟩ := heffect.issued_presents past hissues
      exact ⟨u, heffect.users_mono u hu, A, _, [], rfl, h.users u hu, hpresents⟩
    · obtain ⟨u, hu, B, l, C, rfl, hregisters, hpresents⟩ := h.owners s hs
      exact ⟨u, heffect.users_mono u hu, B, l, C ++ [_],
        by rw [List.append_assoc]; rfl, hregisters, hpresents⟩

/-- **A RUN.**  Before every event the tables are what the events before it say. -/
theorem before {calls : List AuthCall} {B C : List AuthEvent} {e : AuthEvent}
    (h : events (AuthTables.step sha256) .empty calls = B ++ e :: C) :
    Accounts sha256 B e.before :=
  eventsFrom_history (Accounts sha256) (fun _ _ => True)
    (fun A e => Accounts sha256 A e.before)
    (fun _ past _ c haccounts _ => ⟨haccounts.step past c, haccounts⟩) empty
    (fun _ _ _ _ => trivial) h

end Accounts

/-! ## Tokens -/

/-- A login at the time that returns the token. -/
def LogsIn (token : ByteString) (now : Int) (e : AuthEvent) : Prop :=
  ∃ io username password s, e.input = .login now io username password ∧
    e.output = .session (.ok s) ∧ s.token = token

/-- A logout that succeeds, of the token or of the word `token`. -/
def LogsOut (token : ByteString) (e : AuthEvent) : Prop :=
  ∃ io arg, e.input = .logout io arg ∧ e.output = .ended (.ok ()) ∧
    (arg.text = token ∨ toLower arg.text = ascii "token")

/-- A login less than a day before the time returned the token, and no logout ended it. -/
def IsLive (B : List AuthEvent) (token : ByteString) (now : Int) : Prop :=
  ∃ login, now < login + 24 * 60 * 60 ∧ Lasting (LogsIn token login) (LogsOut token) B

/-- The clock of the calls stays where a day more is an `int`. -/
def ClockFits (calls : List AuthCall) : Prop :=
  ∀ c ∈ calls, ∀ now, c.now? = some now → 0 ≤ now ∧ now + 24 * 60 * 60 < 2 ^ 31

theorem ends_iff {s : UserSession} {e : AuthEvent} : Ends s e ↔ LogsOut s.token e := by
  constructor
  · rintro ⟨io, arg, hin, hout, hmatches⟩
    exact ⟨io, arg, hin, hout, (logoutMatches_iff.mp hmatches).imp_left Eq.symm⟩
  · rintro ⟨io, arg, hin, hout, hword⟩
    exact ⟨io, arg, hin, hout, logoutMatches_iff.mpr (hword.imp_left Eq.symm)⟩

namespace AuthTables

variable {sha256 : ByteString → ByteString} {t : AuthTables}

theorem mem_verifyRows {now : Int} {token : ByteString} {u : UserRow} :
    u ∈ t.verifyRows now token ↔ u ∈ t.users ∧ ∃ s ∈ t.sessions,
      (u.id : Int) = s.userId ∧ verifyMatches now token u s = true := by
  rw [verifyRows, List.mem_flatMap]
  constructor
  · rintro ⟨v, hv, hmem⟩
    obtain ⟨s, hs, rfl⟩ := List.mem_map.mp hmem
    obtain ⟨hs, hmatches⟩ := List.mem_filter.mp hs
    rw [Bool.and_eq_true, decide_eq_true_iff] at hmatches
    exact ⟨hv, s, hs, hmatches⟩
  · rintro ⟨hu, s, hs, hmatches⟩
    refine ⟨u, hu, List.mem_map.mpr ⟨s, List.mem_filter.mpr ⟨hs, ?_⟩, rfl⟩⟩
    rw [Bool.and_eq_true, decide_eq_true_iff]
    exact hmatches

/-- A user who is verified is in one of the rows. -/
theorem verifyToken_mem {now : Int} {io : AuthIo} {token : SqlText} {user : User}
    (h : t.verifyToken now io token = .ok user) :
    ∃ u ∈ t.verifyRows now token.text, user = u.read := by
  rw [verifyToken] at h
  cases hfirst : io.first with
  | some err =>
      rw [hfirst] at h
      cases h
  | none =>
      rw [hfirst] at h
      cases hrows : io.order (t.verifyRows now token.text) with
      | nil =>
          simp only [hrows] at h
          cases h
      | cons u rest =>
          simp only [hrows] at h
          exact ⟨u, mem_of_order hrows, (Except.ok.inj h).symm⟩

theorem verifyToken_iff {now : Int} {io : AuthIo} {token : SqlText} (hio : io.first = none) :
    (∃ user, t.verifyToken now io token = .ok user) ↔ ∃ u, u ∈ t.verifyRows now token.text := by
  constructor
  · rintro ⟨user, h⟩
    obtain ⟨u, hu, -⟩ := verifyToken_mem h
    exact ⟨u, hu⟩
  · rintro ⟨u, hu⟩
    rw [verifyToken, hio]
    cases hrows : io.order (t.verifyRows now token.text) with
    | nil => exact absurd ((io.order_perm _).symm.subset hu) (by rw [hrows]; exact List.not_mem_nil)
    | cons v rest => exact ⟨v.read, rfl⟩

/-- A literal token matches itself. -/
theorem verifyMatches_literal {now : Int} {token : ByteString} (h : IsLiteral token)
    {u : UserRow} {s : UserSession} : verifyMatches now token u s = true ↔
      s.token = token ∧ s.expiresAt > toInt now ∧ u.status = 1 := by
  rw [verifyMatches, decide_eq_true_iff, h.joined]

end AuthTables

section Runs

variable {sha256 : ByteString → ByteString} {calls : List AuthCall} {B C : List AuthEvent}
  {e l : AuthEvent} {u : UserRow} {s : UserSession}

theorem presents_of_mem (hl : l ∈ events (AuthTables.step sha256) .empty calls)
    (hs : Issues s l) : ∃ u ∈ l.before.users, Presents sha256 u s l := by
  have hout := eventsFrom_output hl
  obtain ⟨past, t, c, out⟩ := l
  change out = (t.step sha256 c).2 at hout
  subst hout
  exact (AuthTables.step_effect t c).issued_presents past hs

theorem clock_of_mem (hclock : ClockFits calls)
    (hl : l ∈ events (AuthTables.step sha256) .empty calls) {now : Int}
    (hnow : l.input.now? = some now) : toInt now = now ∧
      toInt (toInt now + 24 * 60 * 60) = now + 24 * 60 * 60 := by
  obtain ⟨pre, post, hcalls, -⟩ := eventsFrom_split hl
  have hmem : l.input ∈ calls := by
    rw [hcalls]
    exact List.mem_append_right _ (List.mem_cons_self ..)
  obtain ⟨hlow, hhigh⟩ := hclock _ hmem now hnow
  have hint : toInt now = now := toInt_of_bounds (by omega) (by omega)
  rw [hint]
  exact ⟨rfl, toInt_of_bounds (by omega) (by omega)⟩

/-- A session that is returned lasts a day from the login. -/
theorem issues_times (hclock : ClockFits calls)
    (hl : l ∈ events (AuthTables.step sha256) .empty calls) (hs : Issues s l) :
    LogsIn s.token s.createdAt l ∧ s.expiresAt = s.createdAt + 24 * 60 * 60 := by
  obtain ⟨u, -, now, io, username, password, hin, hout, -, rfl⟩ := presents_of_mem hl hs
  have hclocked : l.input.now? = some now := by
    rw [hin]
    rfl
  obtain ⟨hnow, hexpires⟩ := clock_of_mem hclock hl hclocked
  simp only [hnow] at hexpires ⊢
  exact ⟨⟨io, username, password, _, hin, hout, rfl⟩, hexpires⟩

/-- The sessions of a token that have not expired are what makes it live. -/
theorem isLive_iff (hclock : ClockFits calls)
    (h : events (AuthTables.step sha256) .empty calls = B ++ e :: C) {token : ByteString}
    {now : Int} : IsLive B token now ↔
      ∃ s ∈ e.before.sessions, s.token = token ∧ s.expiresAt > now := by
  have haccounts := Accounts.before h
  have hrun : ∀ l ∈ B, l ∈ events (AuthTables.step sha256) .empty calls := by
    intro l hl
    rw [h]
    exact List.mem_append_left _ hl
  constructor
  · rintro ⟨login, hday, A, l, R, rfl, ⟨io, username, password, s, hin, hout, htoken⟩, hends⟩
    have hl := hrun l (List.mem_append_right _ (List.mem_cons_self ..))
    obtain ⟨⟨io', username', password', -, hin', -⟩, hexpires⟩ := issues_times hclock hl hout
    have hlogin : login = s.createdAt := by
      rw [hin] at hin'
      exact (AuthCall.login.inj hin').1
    refine ⟨s, (haccounts.sessions s).mpr ⟨A, l, R, rfl, hout, ?_⟩, htoken, by omega⟩
    intro e' he' hend
    rw [ends_iff, htoken] at hend
    exact hends e' he' hend
  · rintro ⟨s, hs, rfl, hexpires⟩
    have hlasting := (haccounts.sessions s).mp hs
    have htimes : s.expiresAt = s.createdAt + 24 * 60 * 60 := by
      obtain ⟨A, l, R, rfl, hissues, -⟩ := hlasting
      exact (issues_times hclock (hrun l (List.mem_append_right _ (List.mem_cons_self ..)))
        hissues).2
    refine ⟨s.createdAt, by omega, hlasting.mono ?_ (fun _ _ => ends_iff.mpr)⟩
    exact fun l hl hissues => (issues_times hclock (hrun l hl) hissues).1

theorem length_before (h : events (AuthTables.step sha256) .empty calls = B ++ e :: C) :
    B.length < calls.length := by
  have hinputs := map_input_eventsFrom (AuthTables.step sha256) calls [] .empty
  change (events _ _ _).map Event.input = calls at hinputs
  rw [← hinputs, h, List.length_map, List.length_append, List.length_cons]
  omega

/-- Every session belongs to a user who may use it. -/
theorem owner_of_mem (hcalls : calls.length < 2 ^ 31)
    (h : events (AuthTables.step sha256) .empty calls = B ++ e :: C)
    (hs : s ∈ e.before.sessions) : ∃ u ∈ e.before.users, (u.id : Int) = s.userId ∧ u.status = 1 ∧
      ∃ A l R, B = A ++ l :: R ∧ (∃ r ∈ A, Registers sha256 u r) ∧ Presents sha256 u s l := by
  have haccounts := Accounts.before h
  obtain ⟨u, hu, A, l, R, hB, ⟨r, hr, hregisters⟩, hpresents⟩ := haccounts.owners s hs
  have hid : printedInt u.id = u.id := by
    have hle := e.before.ids_le u hu
    have hcount := haccounts.count
    have hlength := length_before h
    exact printedInt_of_lt (by omega)
  obtain ⟨_, _, _, _, -, -, -, hsession⟩ := id hpresents
  refine ⟨u, hu, ?_, ?_, A, l, R, hB, ⟨r, hr, hregisters⟩, hpresents⟩
  · rw [hsession, hid]
  · obtain ⟨_, _, _, _, _, _, -, rfl⟩ := hregisters
    rfl

theorem mem_of_split (h : events (AuthTables.step sha256) .empty calls = B ++ e :: C) :
    e ∈ events (AuthTables.step sha256) .empty calls := by
  rw [h]
  exact List.mem_append_right _ (List.mem_cons_self ..)

/-- A verification that reaches the tables accepts if a user and a session match. -/
theorem verified_iff_rows (h : events (AuthTables.step sha256) .empty calls = B ++ e :: C)
    {now : Int} {io : AuthIo} {token : SqlText} (hin : e.input = .verifyToken now io token)
    (hio : io.first = none) : (∃ user, e.output = .verified (.ok user)) ↔
      ∃ u ∈ e.before.users, ∃ s ∈ e.before.sessions, (u.id : Int) = s.userId ∧
        AuthTables.verifyMatches now token.text u s = true := by
  have hout : e.output = .verified (e.before.verifyToken now io token) := by
    rw [eventsFrom_output (mem_of_split h), hin]
    rfl
  have hoks : (∃ user, e.output = .verified (.ok user))
      ↔ ∃ user, e.before.verifyToken now io token = .ok user := by
    rw [hout]
    exact exists_congr (fun user => ⟨AuthOutput.verified.inj, congrArg _⟩)
  rw [hoks, AuthTables.verifyToken_iff hio]
  exact exists_congr (fun u => AuthTables.mem_verifyRows)

/-! ## Accounts -/

theorem readRole_str (role : UserRole) : readRole role.str = role := by
  cases role <;> rfl

/-- The event asks for an account with these data. -/
def AsksFor (sha256 : ByteString → ByteString) (username email passwordHash : ByteString)
    (role : UserRole) (r : AuthEvent) : Prop :=
  ∃ now io name mail password, r.input = .createUser now io name mail password role ∧
    name.text = username ∧ mail.text = email ∧
    AuthTables.hashPassword sha256 password = passwordHash

theorem Registers.asksFor {r : AuthEvent} (h : Registers sha256 u r) :
    AsksFor sha256 u.username u.email u.passwordHash (readRole u.role) r ∧
      u.status = 1 := by
  obtain ⟨now, io, username, email, password, role, hin, rfl⟩ := h
  refine ⟨⟨now, io, username, email, password, ?_, rfl, rfl, rfl⟩, rfl⟩
  rw [hin]
  simp only [AuthTables.newUser, readRole_str]

theorem loginMatches_hash {username digest : ByteString} :
    AuthTables.loginMatches username (LocalStorage.hexStr digest) u = true ↔
      u.username = columnOr u.columns username ∧ u.passwordHash = LocalStorage.hexStr digest ∧
        u.status = 1 := by
  rw [AuthTables.loginMatches, decide_eq_true_iff, (isLiteral_hexStr digest).user]

/-! ## Words that are names of columns -/

theorem columnOr_joined_token {word : ByteString} (h : toLower word = ascii "token") :
    columnOr (u.columns ++ s.columns) word = s.token := by
  rw [columnOr, h]
  rfl

theorem columnOr_username {word : ByteString} (h : toLower word = ascii "username") :
    columnOr u.columns word = u.username := by
  rw [columnOr, h]
  rfl

/-- The word `token` is accepted as a token exactly while anybody is logged in. -/
theorem word_token_verified (hcalls : calls.length < 2 ^ 31) (hclock : ClockFits calls)
    (h : events (AuthTables.step sha256) .empty calls = B ++ e :: C) {now : Int} {io : AuthIo}
    {token : SqlText} (hin : e.input = .verifyToken now io token) (hio : io.first = none)
    (hword : toLower token.text = ascii "token") :
    (∃ user, e.output = .verified (.ok user)) ↔ ∃ other, IsLive B other now := by
  have hnow : toInt now = now := (clock_of_mem hclock (mem_of_split h) (by rw [hin]; rfl)).1
  rw [verified_iff_rows h hin hio]
  constructor
  · rintro ⟨u, -, s, hs, -, hmatches⟩
    rw [AuthTables.verifyMatches, decide_eq_true_iff, hnow] at hmatches
    exact ⟨s.token, (isLive_iff hclock h).mpr ⟨s, hs, rfl, hmatches.2.1⟩⟩
  · rintro ⟨other, hlive⟩
    obtain ⟨s, hs, -, hexpires⟩ := (isLive_iff hclock h).mp hlive
    obtain ⟨u, hu, hid, hstatus, -⟩ := owner_of_mem hcalls h hs
    refine ⟨u, hu, s, hs, hid, ?_⟩
    rw [AuthTables.verifyMatches, decide_eq_true_iff, columnOr_joined_token hword, hnow]
    exact ⟨rfl, hexpires, hstatus⟩

/-- A logout of the word `token` that reaches the tables leaves no session. -/
theorem word_token_logout {t : AuthTables} {io : AuthIo} {token : SqlText} (hio : io.first = none)
    (hword : toLower token.text = ascii "token") : (t.logout io token).1.sessions = [] := by
  rw [AuthTables.logout, hio]
  show t.sessions.filter _ = []
  rw [List.filter_eq_nil_iff]
  intro s _
  rw [logoutMatches_iff.mpr (Or.inr hword)]
  exact Bool.false_ne_true

/-- Under the word `username` any password of the table logs in. -/
theorem word_username_login {t : AuthTables} {now : Int} {io : AuthIo} {username : SqlText}
    {password : ByteString} (hfirst : io.first = none) (hsecond : io.second = none)
    (hfresh : generateHex io.random ∉ t.sessions.map UserSession.token)
    (hword : toLower username.text = ascii "username") (hactive : ∀ u ∈ t.users, u.status = 1) :
    (∃ s, (t.login sha256 now io username password).2 = .ok s) ↔
      ∃ u ∈ t.users, u.passwordHash = AuthTables.hashPassword sha256 password := by
  have hrows : ∀ u, u ∈ t.users.filter (AuthTables.loginMatches username.text
      (AuthTables.hashPassword sha256 password)) ↔
        u ∈ t.users ∧ u.passwordHash = AuthTables.hashPassword sha256 password := by
    intro u
    rw [List.mem_filter, AuthTables.hashPassword, loginMatches_hash, columnOr_username hword]
    exact ⟨fun hu => ⟨hu.1, hu.2.2.1⟩, fun hu => ⟨hu.1, rfl, hu.2, hactive u hu.1⟩⟩
  rw [AuthTables.login, hfirst]
  cases horder : io.order (t.users.filter (AuthTables.loginMatches username.text
      (AuthTables.hashPassword sha256 password))) with
  | nil =>
      refine iff_of_false (by rintro ⟨s, hs⟩; cases hs) ?_
      rintro ⟨u, hu⟩
      have hmem := (io.order_perm _).symm.subset ((hrows u).mpr hu)
      rw [horder] at hmem
      exact List.not_mem_nil hmem
  | cons u rest =>
      have hu := (hrows u).mp (AuthTables.mem_of_order horder)
      simp only [hsecond, dif_pos hfresh]
      exact iff_of_true ⟨_, rfl⟩ ⟨u, hu⟩

end Runs

/-! ## A first login -/

/-- The account and the password of the examples. -/
def adaName : SqlText := ⟨ascii "ada", by decide, by decide, by decide⟩

def adaToken : SqlText := ⟨ascii "07", by decide, by decide, by decide⟩

def wordToken : SqlText := ⟨ascii "Token", by decide, by decide, by decide⟩

/-- Nothing fails, and the random bytes are these. -/
def faultlessIo (random : ByteString) : AuthIo :=
  ⟨none, none, [], some random, id, fun _ => List.Perm.refl _⟩

/-- An account is created, its owner logs in, and both tokens are tried; then comes a wrong
    password. -/
def adaCalls : List AuthCall :=
  [.createUser 0 (faultlessIo []) adaName adaName (ascii "lace") .user,
    .login 10 (faultlessIo [7]) adaName (ascii "lace"),
    .verifyToken 20 (faultlessIo []) adaToken,
    .verifyToken 30 (faultlessIo []) wordToken,
    .login 40 (faultlessIo [8]) adaName (ascii "engine")]

theorem adaCalls_fit : adaCalls.length < 2 ^ 31 ∧ ClockFits adaCalls := by
  refine ⟨by decide, ?_⟩
  simp [ClockFits, adaCalls, AuthCall.now?]

theorem adaName_literal : IsLiteral adaName.text := by decide

theorem adaToken_literal : IsLiteral adaToken.text := by decide

def adaUser : User := ⟨1, ascii "ada", ascii "ada", ascii "6c616365", .user, true, 0, 0⟩

end VHono
