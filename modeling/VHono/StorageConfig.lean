import VHono.ByteString

/-! # Storage configurations

    The settings of the four kinds of providers, and the check that none of the
    required ones is empty.  The settings for retries and timeouts are left
    out. -/

namespace VHono

open ByteString

inductive StorageType
  | localStorage
  | s3
  | aliyunOss
  | tencentCos
  deriving DecidableEq, Repr

def StorageType.str (t : StorageType) : ByteString :=
  match t with
  | localStorage => ascii "local"
  | s3 => ascii "s3"
  | aliyunOss => ascii "aliyun_oss"
  | tencentCos => ascii "tencent_cos"

/-- The settings of a local storage, with the base path as it is written. -/
structure LocalConfig where
  basePath   : ByteString := ascii "./storage"
  urlPrefix  : ByteString := ascii "/files"
  createDirs : Bool := true
  deriving DecidableEq, Repr

structure S3Config where
  endpoint      : ByteString := []
  accessKey     : ByteString := []
  secretKey     : ByteString := []
  region        : ByteString := ascii "us-east-1"
  useSsl        : Bool := true
  pathStyle     : Bool := false
  defaultBucket : ByteString := []
  deriving DecidableEq, Repr

structure AliyunOSSConfig where
  endpoint         : ByteString := []
  accessKeyId      : ByteString := []
  accessKeySecret  : ByteString := []
  internalEndpoint : ByteString := []
  defaultBucket    : ByteString := []
  deriving DecidableEq, Repr

structure TencentCOSConfig where
  secretId      : ByteString := []
  secretKey     : ByteString := []
  region        : ByteString := []
  defaultBucket : ByteString := []
  deriving DecidableEq, Repr

structure StorageConfig where
  storageType  : StorageType := .localStorage
  localStorage : LocalConfig := {}
  s3           : S3Config := {}
  aliyunOss    : AliyunOSSConfig := {}
  tencentCos   : TencentCOSConfig := {}
  deriving DecidableEq, Repr

structure ConfigValidationResult where
  valid         : Bool
  missingFields : List ByteString
  errorMessage  : ByteString
  deriving DecidableEq, Repr

/-- `missing.join(", ")` -/
def joinComma : List ByteString → ByteString
  | [] => []
  | [field] => field
  | field :: fields => field ++ ascii ", " ++ joinComma fields

/-- The check of the required fields, given with their values. -/
def validateFields (fields : List (String × ByteString)) : ConfigValidationResult :=
  let missing := (fields.filter (fun field => field.2 = [])).map (fun field => ascii field.1)
  if missing.length > 0 then ⟨false, missing, ascii "Missing required fields: " ++ joinComma missing⟩
  else ⟨true, [], []⟩

def validateLocalConfig (config : LocalConfig) : ConfigValidationResult :=
  validateFields [("local.base_path", config.basePath)]

def validateS3Config (config : S3Config) : ConfigValidationResult :=
  validateFields [("s3.endpoint", config.endpoint), ("s3.access_key", config.accessKey),
    ("s3.secret_key", config.secretKey), ("s3.default_bucket", config.defaultBucket)]

def validateAliyunOssConfig (config : AliyunOSSConfig) : ConfigValidationResult :=
  validateFields [("aliyun_oss.endpoint", config.endpoint),
    ("aliyun_oss.access_key_id", config.accessKeyId),
    ("aliyun_oss.access_key_secret", config.accessKeySecret),
    ("aliyun_oss.default_bucket", config.defaultBucket)]

def validateTencentCosConfig (config : TencentCOSConfig) : ConfigValidationResult :=
  validateFields [("tencent_cos.secret_id", config.secretId),
    ("tencent_cos.secret_key", config.secretKey), ("tencent_cos.region", config.region),
    ("tencent_cos.default_bucket", config.defaultBucket)]

def validateStorageConfig (config : StorageConfig) : ConfigValidationResult :=
  match config.storageType with
  | .localStorage => validateLocalConfig config.localStorage
  | .s3 => validateS3Config config.s3
  | .aliyunOss => validateAliyunOssConfig config.aliyunOss
  | .tencentCos => validateTencentCosConfig config.tencentCos

/-- **A VALID CONFIGURATION LACKS NOTHING.**  The check passes exactly if no required field is
    empty, and otherwise names every field that is. -/
theorem validateFields_spec (fields : List (String × ByteString)) :
    ((validateFields fields).valid = true ↔ ∀ field ∈ fields, field.2 ≠ []) ∧
    ∀ name, name ∈ (validateFields fields).missingFields ↔
      ∃ field ∈ fields, field.2 = [] ∧ ascii field.1 = name := by
  have hmissing : ∀ name, name ∈ (fields.filter (fun field => field.2 = [])).map
      (fun field => ascii field.1) ↔ ∃ field ∈ fields, field.2 = [] ∧ ascii field.1 = name := by
    intro name
    simp only [List.mem_map, List.mem_filter, decide_eq_true_eq, and_assoc]
  rw [validateFields]
  split
  · rename_i hsome
    refine ⟨⟨(fun h => by cases h), ?_⟩, hmissing⟩
    intro hall
    obtain ⟨name, hname⟩ := List.exists_mem_of_length_pos hsome
    obtain ⟨field, hfield, hempty, -⟩ := (hmissing name).mp hname
    exact absurd hempty (hall field hfield)
  · rename_i hnone
    have hnil : (fields.filter (fun field => field.2 = [])).map (fun field => ascii field.1) = [] :=
      List.eq_nil_of_length_eq_zero (by omega)
    rw [hnil] at hmissing
    refine ⟨⟨?_, fun _ => rfl⟩, hmissing⟩
    intro _ field hfield hempty
    exact nomatch (hmissing (ascii field.1)).mpr ⟨field, hfield, hempty, rfl⟩

end VHono
