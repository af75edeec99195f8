import VHono.LocalStorage
import VHono.UploadTables
import VHono.SqlTokens

/-! # The statements of the database and of the accounts

    A statement is interpolated from fixed text, numbers and arguments, which
    are quoted in one of two ways and escaped or not.  What `json2` and the
    hash function return is not computed. -/

namespace VHono

open ByteString

/-- A part of an interpolated statement. -/
inductive SqlPart
  | text (s : ByteString)
  | number (n : Int)
  /-- `'${arg}'` or `"$arg"` -/
  | quoted (quote : UInt8) (arg : ByteString)
  /-- `'${escape_sql(arg)}suffix'` -/
  | escaped (arg suffix : ByteString)
  /-- `"$arg"` after `arg.replace('"', "''")` -/
  | replaced (arg : ByteString)
  /-- `${arg}` -/
  | bare (arg : ByteString)
  deriving DecidableEq, Repr

def escapeSql (s : ByteString) : ByteString := replaceStr s (ascii "'") (ascii "''")

namespace SqlPart

def render : SqlPart → ByteString
  | text s => s
  | number n => intStr n
  | quoted quote arg => quote :: (arg ++ [quote])
  | escaped arg suffix => byte '\'' :: (escapeSql arg ++ suffix ++ [byte '\''])
  | replaced arg => byte '"' :: (replaceStr arg (ascii "\"") (ascii "''") ++ [byte '"'])
  | bare arg => arg

/-- A single-quoted argument. -/
def single (arg : ByteString) : SqlPart := quoted (byte '\'') arg

/-- A double-quoted argument. -/
def double (arg : ByteString) : SqlPart := quoted (byte '"') arg

end SqlPart

def renderSql (ps : List SqlPart) : ByteString := ps.flatMap SqlPart.render

/-- What the code calls and the model does not compute. -/
structure SqlLibrary where
  /-- `sha256.sum(bytes)` -/
  sha256     : ByteString → ByteString
  /-- `json2.encode[[]string](permissions)` -/
  jsonEncode : List ByteString → ByteString

/-- `rand.bytes(16)` in hex, with dashes; the empty string without random bytes. -/
def generateFileUuid (random : Option ByteString) : ByteString :=
  match random with
  | none => []
  | some bytes => bytes.zipIdx.flatMap (fun (b, i) =>
      (if i = 4 ∨ i = 6 ∨ i = 8 ∨ i = 10 then ascii "-" else []) ++ LocalStorage.hexByte b)

/-- `generate_db_upload_id` and `generate_token` -/
def generateHex (random : Option ByteString) : ByteString :=
  match random with
  | none => []
  | some bytes => LocalStorage.hexStr bytes

inductive UserRole
  | admin
  | manager
  | user
  | guest
  deriving DecidableEq, Repr

def UserRole.str : UserRole → ByteString
  | admin => ascii "admin"
  | manager => ascii "manager"
  | user => ascii "user"
  | guest => ascii "guest"

structure FileListOptions where
  bucket      : ByteString := []
  /-- `prefix` -/
  pfx         : ByteString := []
  storageType : ByteString := []
  limit       : Int := 100
  offset      : Int := 0
  orderBy     : ByteString := ascii "created_at"
  orderDesc   : Bool := true
  deriving DecidableEq, Repr

/-- The columns that a query of files reads. -/
def fileColumns : ByteString :=
  ascii "SELECT id, file_uuid, file_hash, file_name, file_size, file_type, " ++
    ascii "storage_type, bucket, object_key, created_at, updated_at, metadata "

namespace FileListOptions

open SqlPart

def whereClauses (options : FileListOptions) : List (List SqlPart) :=
  (if options.bucket ≠ [] then [[text (ascii "bucket = "), single options.bucket]] else []) ++
  (if options.pfx ≠ [] then
    [[text (ascii "object_key LIKE "), escaped options.pfx (ascii "%")]] else []) ++
  (if options.storageType ≠ [] then
    [[text (ascii "storage_type = "), single options.storageType]] else [])

def whereSql (options : FileListOptions) : List SqlPart :=
  if options.whereClauses.isEmpty then []
  else text (ascii "WHERE ") :: [text (ascii " AND ")].intercalate options.whereClauses

def orderDir (options : FileListOptions) : ByteString :=
  if options.orderDesc then ascii "DESC" else ascii "ASC"

/-- `limit` is the default if it is not positive. -/
def pageLimit (options : FileListOptions) : Int := if 0 < options.limit then options.limit else 100

def countSql (options : FileListOptions) : List SqlPart :=
  text (ascii "SELECT COUNT(*) FROM file_info ") :: options.whereSql

def pageSql (options : FileListOptions) : List SqlPart :=
  text (fileColumns ++ ascii "FROM file_info ") :: options.whereSql ++
    [text (ascii " ORDER BY "), bare options.orderBy,
     text (ascii " " ++ options.orderDir ++ ascii " LIMIT "), number options.pageLimit,
     text (ascii " OFFSET "), number options.offset]

end FileListOptions

/-- A call of a function that builds statements, with the random bytes, the time and the user id
    that it comes to on the way. -/
inductive SqlCall
  | insertFile (file : FileInfo) (random : Option ByteString) (now : Int)
  | getFileByUuid (fileUuid : ByteString)
  | getFileByHash (fileHash : ByteString)
  | getFilesByHash (fileHash : ByteString)
  | updateFile (fileUuid fileName fileType metadata : ByteString) (now : Int)
  | deleteFile (fileUuid : ByteString)
  | fileExists (fileUuid : ByteString)
  | listFiles (options : FileListOptions)
  | createMultipartUpload (upload : MultipartUpload) (randomId randomUuid : Option ByteString)
      (now : Int)
  | getMultipartUpload (uploadId : ByteString)
  | updateMultipartStatus (uploadId status : ByteString) (now : Int)
  | deleteMultipartUpload (uploadId : ByteString)
  | recordUploadedPart (uploadId : ByteString) (partNumber : Int) (etag : ByteString) (size now : Int)
  | getUploadedParts (uploadId : ByteString)
  | getUploadedPartsCount (uploadId : ByteString)
  | isPartUploaded (uploadId : ByteString) (partNumber : Int)
  | deleteUploadedPart (uploadId : ByteString) (partNumber : Int)
  | getFileByKey (bucket objectKey : ByteString)
  | createUser (username email password : ByteString) (role : UserRole) (now : Int)
  | login (username password : ByteString) (userId : Int) (random : Option ByteString) (now : Int)
  | verifyToken (token : ByteString) (now : Int)
  | logout (token : ByteString)
  | createMenuItem (name path icon : ByteString) (parentId sortOrder : Int)
      (permissions : List ByteString) (now : Int)
  | getMenuIdByPath (path : ByteString)

namespace SqlCall

open SqlPart

/-- A column compared with one argument, which ends the statement. -/
def lookup (head : ByteString) (arg : ByteString) : List SqlPart := [text head, single arg]

/-- The values of a row, separated by commas. -/
def values (ps : List SqlPart) : List SqlPart := ps.intersperse (text (ascii ", "))

/-- The statements that a call builds, in their order, if those before succeed. -/
def statements (lib : SqlLibrary) : SqlCall → List (List SqlPart)
  | insertFile file random now =>
    let fileUuid := if file.fileUuid ≠ [] then file.fileUuid else generateFileUuid random
    [[text (ascii "INSERT INTO file_info (file_uuid, file_hash, file_name, file_size, file_type, " ++
        ascii "storage_type, bucket, object_key, created_at, updated_at, metadata) VALUES (")] ++
      values [single fileUuid, single file.fileHash, escaped file.fileName [], number file.fileSize,
        single file.fileType, single file.storageType, single file.bucket,
        escaped file.objectKey [], number now, number now, escaped file.metadata []] ++
      [text (ascii ")")]]
  | getFileByUuid fileUuid =>
    [lookup (fileColumns ++ ascii "FROM file_info WHERE file_uuid = ") fileUuid]
  | getFileByHash fileHash =>
    [lookup (fileColumns ++ ascii "FROM file_info WHERE file_hash = ") fileHash]
  | getFilesByHash fileHash =>
    [lookup (fileColumns ++ ascii "FROM file_info WHERE file_hash = ") fileHash]
  | updateFile fileUuid fileName fileType metadata now =>
    [[text (ascii "UPDATE file_info SET file_name = "), escaped fileName [],
      text (ascii ", file_type = "), single fileType, text (ascii ", metadata = "),
      escaped metadata [], text (ascii ", updated_at = "), number now,
      text (ascii " WHERE file_uuid = "), single fileUuid],
     -- the row is read back
     lookup (fileColumns ++ ascii "FROM file_info WHERE file_uuid = ") fileUuid]
  | deleteFile fileUuid => [lookup (ascii "DELETE FROM file_info WHERE file_uuid = ") fileUuid]
  | fileExists fileUuid =>
    [[text (ascii "SELECT 1 FROM file_info WHERE file_uuid = "), single fileUuid,
      text (ascii " LIMIT 1")]]
  | listFiles options => [options.countSql, options.pageSql]
  | createMultipartUpload upload randomId randomUuid now =>
    let uploadId := if upload.uploadId ≠ [] then upload.uploadId else generateHex randomId
    let fileUuid := if upload.fileUuid ≠ [] then upload.fileUuid else generateFileUuid randomUuid
    [[text (ascii "INSERT INTO multipart_uploads (upload_id, file_uuid, file_name, file_size, " ++
        ascii "chunk_size, total_chunks, bucket, object_key, content_type, status, " ++
        ascii "created_at, updated_at) VALUES (")] ++
      values [single uploadId, single fileUuid, escaped upload.fileName [], number upload.fileSize,
        number upload.chunkSize, number upload.totalChunks, single upload.bucket,
        escaped upload.objectKey [], single upload.contentType] ++
      [text (ascii ", 'uploading', "), number now, text (ascii ", "), number now, text (ascii ")")]]
  | getMultipartUpload uploadId =>
    [lookup (ascii "SELECT id, upload_id, file_uuid, file_name, file_size, chunk_size, " ++
      ascii "total_chunks, bucket, object_key, content_type, status, created_at, updated_at " ++
      ascii "FROM multipart_uploads WHERE upload_id = ") uploadId]
  | updateMultipartStatus uploadId status now =>
    [[text (ascii "UPDATE multipart_uploads SET status = "), single status,
      text (ascii ", updated_at = "), number now, text (ascii " WHERE upload_id = "),
      single uploadId]]
  | deleteMultipartUpload uploadId =>
    [lookup (ascii "DELETE FROM uploaded_parts WHERE upload_id = ") uploadId,
     lookup (ascii "DELETE FROM multipart_uploads WHERE upload_id = ") uploadId]
  | recordUploadedPart uploadId partNumber etag size now =>
    [[text (ascii "INSERT OR REPLACE INTO uploaded_parts " ++
        ascii "(upload_id, part_number, etag, size, uploaded_at) VALUES (")] ++
      values [single uploadId, number partNumber, single etag, number size, number now] ++
      [text (ascii ")")],
     [text (ascii "UPDATE multipart_uploads SET updated_at = "), number now,
      text (ascii " WHERE upload_id = "), single uploadId]]
  | getUploadedParts uploadId =>
    [[text (ascii "SELECT id, upload_id, part_number, etag, size, uploaded_at " ++
        ascii "FROM uploaded_parts WHERE upload_id = "),
      single uploadId, text (ascii " ORDER BY part_number ASC")]]
  | getUploadedPartsCount uploadId =>
    [lookup (ascii "SELECT COUNT(*) FROM uploaded_parts WHERE upload_id = ") uploadId]
  | isPartUploaded uploadId partNumber =>
    [[text (ascii "SELECT 1 FROM uploaded_parts WHERE upload_id = "), single uploadId,
      text (ascii " AND part_number = "), number partNumber, text (ascii " LIMIT 1")]]
  | deleteUploadedPart uploadId partNumber =>
    [[text (ascii "DELETE FROM uploaded_parts WHERE upload_id = "), single uploadId,
      text (ascii " AND part_number = "), number partNumber]]
  | getFileByKey bucket objectKey =>
    [[text (fileColumns ++ ascii "FROM file_info WHERE bucket = "),
      single bucket, text (ascii " AND object_key = "), escaped objectKey []]]
  | createUser username email password role now =>
    let passwordHash := LocalStorage.hexStr (lib.sha256 password)
    [[text (ascii "INSERT INTO users (username, email, password_hash, role, " ++
        ascii "status, created_at, updated_at) VALUES (")] ++
      values [double username, double email, double passwordHash, double role.str] ++
      [text (ascii ", 1, "), number now, text (ascii ", "), number now, text (ascii ")")],
     [text (ascii "SELECT last_insert_rowid()")]]
  | login username password userId random now =>
    let passwordHash := LocalStorage.hexStr (lib.sha256 password)
    [[text (ascii "SELECT id, username, email, password_hash, role, status " ++
        ascii "FROM users WHERE username = "),
      double username, text (ascii " AND password_hash = "), double passwordHash,
      text (ascii " AND status = 1")],
     [text (ascii "INSERT INTO user_sessions (user_id, token, expires_at, created_at) VALUES (")] ++
      values [number userId, double (generateHex random), number ((now + 24 * 60 * 60).bmod (2 ^ 32)), number now] ++
      [text (ascii ")")]]
  | verifyToken token now =>
    [[text (ascii "SELECT u.id, u.username, u.email, u.password_hash, u.role, u.status " ++
        ascii "FROM users u JOIN user_sessions s ON u.id = s.user_id WHERE s.token = "),
      double token, text (ascii " AND s.expires_at > "), number now,
      text (ascii " AND u.status = 1")]]
  | logout token => [[text (ascii "DELETE FROM user_sessions WHERE token = "), double token]]
  | createMenuItem name path icon parentId sortOrder permissions now =>
    [[text (ascii "INSERT INTO menu_items (name, path, icon, parent_id, sort_order, " ++
        ascii "permissions, status, created_at, updated_at) VALUES (")] ++
      values [double name, double path, double icon, number parentId, number sortOrder,
        replaced (lib.jsonEncode permissions)] ++
      [text (ascii ", 1, "), number now, text (ascii ", "), number now, text (ascii ")")],
     [text (ascii "SELECT last_insert_rowid()")]]
  | getMenuIdByPath path =>
    [[text (ascii "SELECT id FROM menu_items WHERE path = "), double path]]

end SqlCall

end VHono
