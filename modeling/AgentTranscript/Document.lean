import AgentTranscript.Catalog.Basic

/-! Archived bodies: the document of one session and the revision that names it. -/

set_option autoImplicit false

namespace AgentTranscript

abbrev Bytes := List UInt8

abbrev Nonce := List UInt8

def documentSchema : Nat := 1

structure ArchiveDocument where
  schema : Nat
  harness : HarnessId
  repoKey : String
  metadata : Meta
  messages : List Message
  deriving DecidableEq, Repr

def ArchiveDocument.new (harness : HarnessId) (repoKey : String) (transcript : Transcript) :
    ArchiveDocument where
  schema := documentSchema
  harness := harness
  repoKey := repoKey
  metadata := transcript.metadata
  messages := transcript.body

/-- What the crates below a document make of it: its JSON bytes, their SHA-256
in hex, and the sealed blob under an object key and a random nonce. -/
class DocumentCodec where
  canonicalBytes : ArchiveDocument → Except Error Bytes
  sha256Hex : Bytes → String
  encrypt : Nonce → String → Bytes → Except Error Bytes
  sha256Hex_length : ∀ bytes, (sha256Hex bytes).utf8ByteSize = 64
  sha256Hex_digits : ∀ bytes, (sha256Hex bytes).toList.all isAsciiHexdigit = true

def ArchiveDocument.revision (document : ArchiveDocument) (hash : String)
    (updatedAt : Option DateTime) (size : Nat) : Except Error Revision := do
  let key ← objectKey hash
  .ok {
    objectKey := key
    freshness := Freshness.ofBody document.messages updatedAt hash
    info := Info.of document.metadata
    size := size }

section Codec

variable [DocumentCodec]

def ArchiveDocument.contentHash (document : ArchiveDocument) : Except Error String := do
  let bytes ← DocumentCodec.canonicalBytes document
  .ok (DocumentCodec.sha256Hex bytes)

def encryptDocument (nonce : Nonce) (object : String) (document : ArchiveDocument) :
    Except Error Bytes := do
  let bytes ← DocumentCodec.canonicalBytes document
  DocumentCodec.encrypt nonce object bytes

end Codec

def ArchiveDocument.piece (document : ArchiveDocument) (revision : Revision) : Catalog :=
  Catalog.piece document.repoKey document.harness document.metadata.id revision

section Padded

def hexDigit (byte : UInt8) : Char :=
  if isAsciiHexdigit (Char.ofNat byte.toNat) then Char.ofNat byte.toNat else '0'

theorem hexDigit_isAsciiHexdigit (byte : UInt8) : isAsciiHexdigit (hexDigit byte) = true := by
  unfold hexDigit
  split
  · assumption
  · decide

def paddedDigits (bytes : List UInt8) : List Char :=
  (bytes.map hexDigit ++ List.replicate 64 '0').take 64

theorem paddedDigits_all (bytes : List UInt8) : (paddedDigits bytes).all isAsciiHexdigit = true := by
  apply List.all_eq_true.mpr
  intro char member
  rcases List.mem_append.mp (List.mem_of_mem_take member) with digit | zero
  · obtain ⟨byte, _, rfl⟩ := List.mem_map.mp digit
    exact hexDigit_isAsciiHexdigit byte
  · exact List.eq_of_mem_replicate zero ▸ rfl

/-- A codec that names a document by its own text, filled up to 64 digits. -/
@[reducible] def DocumentCodec.padded : DocumentCodec where
  canonicalBytes document :=
    .ok (document.metadata.rest.toList.map fun char => UInt8.ofNat char.toNat)
  sha256Hex bytes := String.ofList (paddedDigits bytes)
  encrypt _ _ bytes := .ok bytes
  sha256Hex_length bytes := by
    rw [utf8ByteSize_of_digits (paddedDigits_all bytes)]
    simp [paddedDigits]
  sha256Hex_digits bytes := by simpa using paddedDigits_all bytes

end Padded

end AgentTranscript
