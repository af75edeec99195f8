import VHono.Cookies
import VHono.Hmac
import VHono.Jwt

/-! # The copies of HMAC

    Six functions of the repository compute an HMAC by hand: three for the
    algorithms of tokens, one for cookies, one for each of two storage
    signatures.  Each is HMAC over its hash function with the block of that
    function. -/

namespace VHono

open ByteString Hmac

/-- A hash function with sums of `n` bytes. -/
abbrev HashSum (n : Nat) := ByteString → { d : ByteString // d.length = n }

/-! ## The functions -/

/-- The body of the functions for tokens and cookies, which copy every sum byte by byte. -/
def hmacByHand {n : Nat} (sum : HashSum n) (blockSize : Nat) (message secret : ByteString) :
    ByteString :=
  let key := if secret.length > blockSize then copyBytes n (sum secret).val else secret
  let key := padKey blockSize key
  let iKeyPad := xorBlock blockSize key 0x36
  let oKeyPad := xorBlock blockSize key 0x5c
  let innerHash := copyBytes n (sum (iKeyPad ++ message)).val
  copyBytes n (sum (oKeyPad ++ innerHash)).val

def hmacSha256 (sha256 : HashSum 32) (message secret : ByteString) : ByteString :=
  hmacByHand sha256 64 message secret

def hmacSha384 (sha384 : HashSum 48) (message secret : ByteString) : ByteString :=
  hmacByHand sha384 128 message secret

def hmacSha512 (sha512 : HashSum 64) (message secret : ByteString) : ByteString :=
  hmacByHand sha512 128 message secret

/-- `outer_hash` of `generate_hmac_signature`, with its loops. -/
def cookieOuterHash (sha256 : HashSum 32) (value secret : ByteString) : ByteString :=
  hmacByHand sha256 64 value secret

/-- The body of the two functions for storage requests. -/
def storageHmac {n : Nat} (sum : HashSum n) (blockSize : Nat) (key data : ByteString) :
    ByteString :=
  let k := if key.length > blockSize then (sum key).val else key
  let k := padKey blockSize k
  let iPad := xorBlock blockSize k 0x36
  let oPad := xorBlock blockSize k 0x5c
  let innerHash := (sum (iPad ++ data)).val
  (sum (oPad ++ innerHash)).val

def s3HmacSha256 (sha256 : HashSum 32) (key data : ByteString) : ByteString :=
  storageHmac sha256 64 key data

def ossHmacSha1 (sha1 : HashSum 20) (key data : ByteString) : ByteString :=
  storageHmac sha1 64 key data

/-- What signs tokens, made of three hash functions. -/
def KeyedHashes.ofSums (sha256 : HashSum 32) (sha384 : HashSum 48) (sha512 : HashSum 64) :
    KeyedHashes where
  hmacSha256 := VHono.hmacSha256 sha256
  hmacSha384 := VHono.hmacSha384 sha384
  hmacSha512 := VHono.hmacSha512 sha512

/-! ## Agreement with the construction -/

section Agreement

variable {n : Nat} (sum : HashSum n) {blockSize : Nat}

/-- The key of the loops is the key of the construction. -/
theorem padKey_hashed (key : ByteString) :
    padKey blockSize (if key.length > blockSize then (sum key).val else key)
      = blockKey (fun s => (sum s).val) blockSize key :=
  padKey_eq blockSize _ _ rfl

theorem length_hashed (hle : n ≤ blockSize) (key : ByteString) :
    (blockKey (fun s => (sum s).val) blockSize key).length = blockSize :=
  length_blockKey (fun s => (sum s).property) hle key

theorem storageHmac_eq (hle : n ≤ blockSize) (key data : ByteString) :
    storageHmac sum blockSize key data = hmac (fun s => (sum s).val) blockSize key data := by
  have hlen := length_hashed sum hle key
  rw [storageHmac, padKey_hashed, xorBlock_eq hlen, xorBlock_eq hlen]
  rfl

theorem hmacByHand_eq (hle : n ≤ blockSize) (message secret : ByteString) :
    hmacByHand sum blockSize message secret
      = hmac (fun s => (sum s).val) blockSize secret message := by
  have hcopy : ∀ s, copyBytes n (sum s).val = (sum s).val := fun s => copyBytes_eq (sum s).property
  rw [← storageHmac_eq sum hle, hmacByHand]
  simp only [hcopy]
  rfl

end Agreement

/-- The signature of a cookie is the text of its outer hash. -/
theorem generateHmacSignature_eq (sha256 : HashSum 32) (value secret : ByteString) :
    generateHmacSignature sha256 value secret
      = (urlEncode (cookieOuterHash sha256 value secret)).filter (fun b => b ≠ byte '=') := by
  rw [cookieOuterHash, hmacByHand_eq sha256 (by decide)]
  rfl

/-- **THE COPIES.**  Each function is HMAC, with a block of 64 bytes for SHA-1 and SHA-256 and of
    128 bytes for SHA-384 and SHA-512; so the three for SHA-256 are one function. -/
theorem copies_agree (sha1 : HashSum 20) (sha256 : HashSum 32) (sha384 : HashSum 48)
    (sha512 : HashSum 64) (key message : ByteString) :
    hmacSha256 sha256 message key = hmac (fun s => (sha256 s).val) 64 key message ∧
    hmacSha384 sha384 message key = hmac (fun s => (sha384 s).val) 128 key message ∧
    hmacSha512 sha512 message key = hmac (fun s => (sha512 s).val) 128 key message ∧
    cookieOuterHash sha256 message key = hmac (fun s => (sha256 s).val) 64 key message ∧
    generateHmacSignature sha256 message key
      = (urlEncode (cookieOuterHash sha256 message key)).filter (fun b => b ≠ byte '=') ∧
    s3HmacSha256 sha256 key message = hmac (fun s => (sha256 s).val) 64 key message ∧
    ossHmacSha1 sha1 key message = hmac (fun s => (sha1 s).val) 64 key message ∧
    (hmacSha256 sha256 message key = s3HmacSha256 sha256 key message ∧
      cookieOuterHash sha256 message key = s3HmacSha256 sha256 key message) := by
  have h256 : hmacSha256 sha256 message key = hmac (fun s => (sha256 s).val) 64 key message :=
    hmacByHand_eq sha256 (by decide) message key
  have hcookie : cookieOuterHash sha256 message key
      = hmac (fun s => (sha256 s).val) 64 key message := hmacByHand_eq sha256 (by decide) message key
  have h3 : s3HmacSha256 sha256 key message = hmac (fun s => (sha256 s).val) 64 key message :=
    storageHmac_eq sha256 (by decide) key message
  exact ⟨h256, hmacByHand_eq sha384 (by decide) message key,
    hmacByHand_eq sha512 (by decide) message key, hcookie,
    generateHmacSignature_eq sha256 message key, h3,
    storageHmac_eq sha1 (by decide) key message, h256.trans h3.symm, hcookie.trans h3.symm⟩

end VHono
