import VHono.ByteDecimals

/-! # Storage errors

    The errors of the storage providers, which reach their callers as text. -/

namespace VHono

open ByteString

inductive StorageErrorKind
  | networkTimeout
  | serviceUnavailable
  | rateLimited
  | connectionReset
  | temporaryFailure
  | invalidCredentials
  | accessDenied
  | bucketNotFound
  | objectNotFound
  | invalidObjectKey
  | quotaExceeded
  | invalidConfig
  | bucketNotEmpty
  | bucketAlreadyExists
  | objectAlreadyExists
  | invalidRange
  | checksumMismatch
  | unknown
  deriving DecidableEq, Repr

def StorageErrorKind.str (kind : StorageErrorKind) : ByteString :=
  match kind with
  | networkTimeout => ascii "network_timeout"
  | serviceUnavailable => ascii "service_unavailable"
  | rateLimited => ascii "rate_limited"
  | connectionReset => ascii "connection_reset"
  | temporaryFailure => ascii "temporary_failure"
  | invalidCredentials => ascii "invalid_credentials"
  | accessDenied => ascii "access_denied"
  | bucketNotFound => ascii "bucket_not_found"
  | objectNotFound => ascii "object_not_found"
  | invalidObjectKey => ascii "invalid_object_key"
  | quotaExceeded => ascii "quota_exceeded"
  | invalidConfig => ascii "invalid_config"
  | bucketNotEmpty => ascii "bucket_not_empty"
  | bucketAlreadyExists => ascii "bucket_already_exists"
  | objectAlreadyExists => ascii "object_already_exists"
  | invalidRange => ascii "invalid_range"
  | checksumMismatch => ascii "checksum_mismatch"
  | unknown => ascii "unknown"

structure StorageError where
  kind       : StorageErrorKind
  message    : ByteString
  provider   : ByteString
  operation  : ByteString
  httpStatus : Int
  deriving DecidableEq, Repr

def newStorageError (kind : StorageErrorKind) (message provider operation : ByteString) :
    StorageError where
  kind := kind
  message := message
  provider := provider
  operation := operation
  httpStatus := 0

def newNotFoundError (provider bucket key : ByteString) : StorageError where
  kind := .objectNotFound
  message := ascii "Object not found: " ++ bucket ++ ascii "/" ++ key
  provider := provider
  operation := ascii "get"
  httpStatus := 404

def newBucketNotFoundError (provider bucket : ByteString) : StorageError where
  kind := .bucketNotFound
  message := ascii "Bucket not found: " ++ bucket
  provider := provider
  operation := ascii "bucket"
  httpStatus := 404

def StorageError.msg (e : StorageError) : ByteString :=
  e.provider ++ ascii "/" ++ e.operation ++ ascii ": " ++ e.message ++ ascii " (kind: " ++
    e.kind.str ++ ascii ", http_status: " ++ intStr e.httpStatus ++ ascii ")"

end VHono
