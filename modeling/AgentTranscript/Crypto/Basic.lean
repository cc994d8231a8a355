import AgentTranscript.Document

/-! The sealed container of an object: a header, a nonce and a ciphertext. -/

set_option autoImplicit false

namespace AgentTranscript

def keyLen : Nat := 32

def nonceLen : Nat := 24

/-- The authentication tag that ends a ciphertext. -/
def tagLen : Nat := 16

structure Key where
  bytes : Bytes
  bytes_length : bytes.length = keyLen

structure FreshNonce where
  bytes : Nonce
  bytes_length : bytes.length = nonceLen

/-- XChaCha20-Poly1305 and zstd. Under an ideal AEAD, which ciphertexts are
accepted depends on what was encrypted before: `Ideal` says so for a set of writes. -/
class CipherSuite where
  cipherEncrypt : Key → Nonce → Bytes → Bytes → Option Bytes
  cipherDecrypt : Key → Nonce → Bytes → Bytes → Option Bytes
  encodeAll : Bytes → Except String Bytes
  decodeAll : Bytes → Except String Bytes
  cipherEncrypt_length : ∀ key nonce message associated ciphertext,
    cipherEncrypt key nonce message associated = some ciphertext → tagLen ≤ ciphertext.length
  decodeAll_encodeAll : ∀ plaintext encoded,
    encodeAll plaintext = .ok encoded → decodeAll encoded = .ok plaintext

inductive Layout where
  | plain
  | zstd
  deriving DecidableEq, Repr

/-- `ATX1` and `ATZ1`. -/
def Layout.magic : Layout → Bytes
  | .plain => [0x41, 0x54, 0x58, 0x31]
  | .zstd => [0x41, 0x54, 0x5A, 0x31]

def magicLen : Nat := 4

def readHeader (objectKey : String) (header : Bytes) : Except Error Layout :=
  if header = Layout.zstd.magic then .ok .zstd
  else if header = Layout.plain.magic then .ok .plain
  else .error (.format objectKey)

def packed (layout : Layout) (nonce : Nonce) (ciphertext : Bytes) : Bytes :=
  layout.magic ++ nonce ++ ciphertext

section Seal

variable [CipherSuite]

def compressed (objectKey : String) (plaintext : Bytes) : Except Error Bytes :=
  match CipherSuite.encodeAll plaintext with
  | .ok bytes => .ok bytes
  | .error error => .error (.msg s!"compressing `{objectKey}`: {error}")

def decompressed (objectKey : String) (decoded : Bytes) : Except Error Bytes :=
  match CipherSuite.decodeAll decoded with
  | .ok bytes => .ok bytes
  | .error error => .error (.msg s!"decompressing `{objectKey}`: {error}")

def decode (objectKey : String) : Layout → Bytes → Except Error Bytes
  | .zstd, decoded => decompressed objectKey decoded
  | .plain, decoded => .ok decoded

def sealMessage (key : Key) (objectKey : String) (nonce : FreshNonce) (message : Bytes) :
    Except Error Bytes :=
  match CipherSuite.cipherEncrypt key nonce.bytes message (asBytes objectKey) with
  | some ciphertext => .ok ciphertext
  | none => .error (.crypto objectKey)

def openMessage (key : Key) (objectKey : String) (nonce : Nonce) (ciphertext : Bytes) :
    Except Error Bytes :=
  match CipherSuite.cipherDecrypt key nonce ciphertext (asBytes objectKey) with
  | some message => .ok message
  | none => .error (.crypto objectKey)

def encrypt (key : Key) (objectKey : String) (nonce : FreshNonce) (plaintext : Bytes) :
    Except Error Bytes := do
  let message ← compressed objectKey plaintext
  let ciphertext ← sealMessage key objectKey nonce message
  .ok (packed .zstd nonce.bytes ciphertext)

/-- How objects were written before they were compressed. -/
def encryptLegacy (key : Key) (objectKey : String) (nonce : FreshNonce) (plaintext : Bytes) :
    Except Error Bytes := do
  let ciphertext ← sealMessage key objectKey nonce plaintext
  .ok (packed .plain nonce.bytes ciphertext)

def decrypt (key : Key) (objectKey : String) (blob : Bytes) : Except Error Bytes :=
  if blob.length < magicLen + nonceLen + tagLen then .error (.format objectKey)
  else do
    let layout ← readHeader objectKey (blob.take magicLen)
    let nonce := (blob.drop magicLen).take nonceLen
    let ciphertext := blob.drop (magicLen + nonceLen)
    let decoded ← openMessage key objectKey nonce ciphertext
    decode objectKey layout decoded

end Seal

end AgentTranscript
