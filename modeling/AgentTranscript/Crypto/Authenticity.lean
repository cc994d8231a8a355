import AgentTranscript.Crypto.Basic
import AgentTranscript.Library.Loop

/-!
What a successful decryption says about its plaintext. The header that chooses
between the layouts is not part of the associated data.
-/

set_option autoImplicit false

namespace AgentTranscript

open Loop

/-- An encryption by an honest writer. -/
structure Write where
  layout : Layout
  objectKey : String
  nonce : FreshNonce
  plaintext : Bytes

def Layout.other : Layout → Layout
  | .plain => .zstd
  | .zstd => .plain

section Suite

variable [CipherSuite]

def Write.message (write : Write) : Except Error Bytes :=
  match write.layout with
  | .zstd => compressed write.objectKey write.plaintext
  | .plain => .ok write.plaintext

def Write.blob (key : Key) (write : Write) : Except Error Bytes :=
  match write.layout with
  | .zstd => encrypt key write.objectKey write.nonce write.plaintext
  | .plain => encryptLegacy key write.objectKey write.nonce write.plaintext

/-- Decryption accepts what an encryption under the key produced, and nothing else. -/
structure Ideal (key : Key) (writes : Set Write) : Prop where
  accepts : ∀ nonce ciphertext associated message,
    CipherSuite.cipherDecrypt key nonce ciphertext associated = some message ↔
      ∃ write ∈ writes, write.nonce.bytes = nonce ∧ asBytes write.objectKey = associated ∧
        write.message = .ok message ∧
        CipherSuite.cipherEncrypt key nonce message associated = some ciphertext

def Authentic (key : Key) (writes : Set Write) (objectKey : String) (plaintext : Bytes) : Prop :=
  ∃ write ∈ writes, (∃ blob, write.blob key = .ok blob) ∧ write.objectKey = objectKey ∧
    write.plaintext = plaintext

/-- `blob` is an honest one under the other header, and the other layout makes
`plaintext` of the message sealed in it. -/
def Misread (key : Key) (writes : Set Write) (objectKey : String) (blob plaintext : Bytes) : Prop :=
  ∃ write ∈ writes, write.objectKey = objectKey ∧ ∃ message ciphertext,
    write.message = .ok message ∧
    CipherSuite.cipherEncrypt key write.nonce.bytes message (asBytes objectKey) = some ciphertext ∧
    blob = packed write.layout.other write.nonce.bytes ciphertext ∧
    decode objectKey write.layout.other message = .ok plaintext

variable {key : Key} {objectKey : String} {blob plaintext : Bytes}

theorem openMessage_ok_iff {nonce : Nonce} {ciphertext message : Bytes} :
    openMessage key objectKey nonce ciphertext = .ok message ↔
      CipherSuite.cipherDecrypt key nonce ciphertext (asBytes objectKey) = some message := by
  unfold openMessage
  cases CipherSuite.cipherDecrypt key nonce ciphertext (asBytes objectKey) with
  | none => simp
  | some opened => simp

theorem sealMessage_ok_iff {nonce : FreshNonce} {ciphertext message : Bytes} :
    sealMessage key objectKey nonce message = .ok ciphertext ↔
      CipherSuite.cipherEncrypt key nonce.bytes message (asBytes objectKey) = some ciphertext := by
  unfold sealMessage
  cases CipherSuite.cipherEncrypt key nonce.bytes message (asBytes objectKey) with
  | none => simp
  | some produced => simp

theorem Write.blob_ok_iff {write : Write} : write.blob key = .ok blob ↔
    ∃ message ciphertext, write.message = .ok message ∧
      CipherSuite.cipherEncrypt key write.nonce.bytes message (asBytes write.objectKey) =
        some ciphertext ∧
      blob = packed write.layout write.nonce.bytes ciphertext := by
  have shape : write.blob key = (write.message >>= fun message =>
      sealMessage key write.objectKey write.nonce message >>= fun ciphertext =>
        .ok (packed write.layout write.nonce.bytes ciphertext)) := by
    obtain ⟨layout, objectKey, nonce, plaintext⟩ := write
    cases layout <;> rfl
  rw [shape]
  constructor
  · intro produced
    obtain ⟨message, prepared, produced⟩ := bind_ok produced
    obtain ⟨ciphertext, sealed, produced⟩ := bind_ok produced
    cases produced
    exact ⟨message, ciphertext, prepared, sealMessage_ok_iff.mp sealed, rfl⟩
  · intro given
    obtain ⟨message, ciphertext, prepared, sealed, rfl⟩ := given
    rw [prepared, ok_bind, sealMessage_ok_iff.mpr sealed, ok_bind]

theorem Write.decode_message {write : Write} {message : Bytes}
    (prepared : write.message = .ok message) :
    decode write.objectKey write.layout message = .ok write.plaintext := by
  obtain ⟨layout, objectKey, nonce, plaintext⟩ := write
  cases layout with
  | plain =>
      cases prepared
      rfl
  | zstd =>
      simp only [Write.message, compressed] at prepared
      cases encoded : CipherSuite.encodeAll plaintext with
      | error error => simp [encoded] at prepared
      | ok bytes =>
          rw [encoded] at prepared
          cases prepared
          simp [decode, decompressed, CipherSuite.decodeAll_encodeAll plaintext message encoded]

end Suite

theorem magic_length (layout : Layout) : layout.magic.length = magicLen := by
  cases layout <;> rfl

theorem readHeader_magic (objectKey : String) (layout : Layout) :
    readHeader objectKey layout.magic = .ok layout := by
  cases layout <;> rfl

theorem readHeader_ok {objectKey : String} {header : Bytes} {layout : Layout}
    (read : readHeader objectKey header = .ok layout) : header = layout.magic := by
  unfold readHeader at read
  split_ifs at read with zstd plain
  · cases read
    exact zstd
  · cases read
    exact plain

section Decrypt

variable [CipherSuite] {key : Key} {objectKey : String} {blob plaintext : Bytes}
  {writes : Set Write}

theorem decrypt_packed (layout : Layout) {nonce : Nonce} (sized : nonce.length = nonceLen)
    {ciphertext : Bytes} (tagged : tagLen ≤ ciphertext.length) :
    decrypt key objectKey (packed layout nonce ciphertext) =
      openMessage key objectKey nonce ciphertext >>= decode objectKey layout := by
  have header := magic_length layout
  have long : ¬ (packed layout nonce ciphertext).length < magicLen + nonceLen + tagLen := by
    simp only [packed, List.length_append, header, sized]
    omega
  have first : (packed layout nonce ciphertext).take magicLen = layout.magic := by
    rw [packed, List.append_assoc, ← header, List.take_left]
  have rest : (packed layout nonce ciphertext).drop magicLen = nonce ++ ciphertext := by
    rw [packed, List.append_assoc, ← header, List.drop_left]
  have last : (packed layout nonce ciphertext).drop (magicLen + nonceLen) = ciphertext := by
    rw [← List.drop_drop, rest, ← sized, List.drop_left]
  rw [decrypt, if_neg long, first, rest, last, readHeader_magic, ok_bind, ← sized, List.take_left]

/-- Every blob that decrypts is packed from a layout, a nonce and a ciphertext. -/
theorem decrypt_ok_iff : decrypt key objectKey blob = .ok plaintext ↔
    ∃ layout nonce ciphertext message, nonce.length = nonceLen ∧ tagLen ≤ ciphertext.length ∧
      blob = packed layout nonce ciphertext ∧
      CipherSuite.cipherDecrypt key nonce ciphertext (asBytes objectKey) = some message ∧
      decode objectKey layout message = .ok plaintext := by
  constructor
  · intro decrypted
    unfold decrypt at decrypted
    split_ifs at decrypted with short
    obtain ⟨layout, read, decrypted⟩ := bind_ok decrypted
    obtain ⟨message, opened, decoded⟩ := bind_ok decrypted
    have header := readHeader_ok read
    refine ⟨layout, (blob.drop magicLen).take nonceLen, blob.drop (magicLen + nonceLen), message,
      ?_, ?_, ?_, openMessage_ok_iff.mp opened, decoded⟩
    · rw [List.length_take, List.length_drop]
      omega
    · rw [List.length_drop]
      omega
    · rw [packed, ← header, List.append_assoc, ← List.drop_drop, List.take_append_drop,
        List.take_append_drop]
  · intro given
    obtain ⟨layout, nonce, ciphertext, message, sized, tagged, rfl, opened, decoded⟩ := given
    rw [decrypt_packed layout sized tagged, openMessage_ok_iff.mpr opened, ok_bind, decoded]

theorem decrypt_written (ideal : Ideal key writes) {write : Write} (member : write ∈ writes)
    (produced : write.blob key = .ok blob) :
    decrypt key write.objectKey blob = .ok write.plaintext := by
  obtain ⟨message, ciphertext, prepared, sealed, rfl⟩ := Write.blob_ok_iff.mp produced
  refine decrypt_ok_iff.mpr ⟨write.layout, write.nonce.bytes, ciphertext, message,
    write.nonce.bytes_length, CipherSuite.cipherEncrypt_length _ _ _ _ _ sealed, rfl, ?_,
    Write.decode_message prepared⟩
  exact (ideal.accepts _ _ _ _).mpr ⟨write, member, rfl, rfl, prepared, sealed⟩

/-- A blob that decrypts is honest, or is honest under the other header. -/
theorem decrypt_origin (ideal : Ideal key writes)
    (decrypted : decrypt key objectKey blob = .ok plaintext) :
    Authentic key writes objectKey plaintext ∨ Misread key writes objectKey blob plaintext := by
  obtain ⟨layout, nonce, ciphertext, message, _, _, rfl, opened, decoded⟩ :=
    decrypt_ok_iff.mp decrypted
  obtain ⟨write, member, rfl, sameKey, prepared, sealed⟩ := (ideal.accepts _ _ _ _).mp opened
  have same := asBytes_injective sameKey
  subst same
  by_cases honest : layout = write.layout
  · subst honest
    rw [Write.decode_message prepared] at decoded
    refine .inl ⟨write, member, ?_, rfl, Except.ok.inj decoded⟩
    exact ⟨_, Write.blob_ok_iff.mpr ⟨message, ciphertext, prepared, sealed, rfl⟩⟩
  · have flipped : layout = write.layout.other := by
      revert honest
      cases layout <;> cases write.layout <;> simp [Layout.other]
    subst flipped
    exact .inr ⟨write, member, rfl, message, ciphertext, prepared, sealed, rfl, decoded⟩

theorem decrypt_of_misread (ideal : Ideal key writes)
    (misread : Misread key writes objectKey blob plaintext) :
    decrypt key objectKey blob = .ok plaintext := by
  obtain ⟨write, member, rfl, message, ciphertext, prepared, sealed, rfl, decoded⟩ := misread
  refine decrypt_ok_iff.mpr ⟨write.layout.other, write.nonce.bytes, ciphertext, message,
    write.nonce.bytes_length, CipherSuite.cipherEncrypt_length _ _ _ _ _ sealed, rfl, ?_, decoded⟩
  exact (ideal.accepts _ _ _ _).mpr ⟨write, member, rfl, rfl, prepared, sealed⟩

/-- Decryption undoes encryption, and returns authentic plaintexts only, except
where an honest blob under the other header is read as something else. -/
theorem decrypt_authentic_iff (ideal : Ideal key writes) :
    (∀ write ∈ writes, ∀ blob, write.blob key = .ok blob →
      decrypt key write.objectKey blob = .ok write.plaintext) ∧
    ∀ objectKey blob,
      (∀ plaintext, decrypt key objectKey blob = .ok plaintext →
        Authentic key writes objectKey plaintext) ↔
      ∀ plaintext, Misread key writes objectKey blob plaintext →
        Authentic key writes objectKey plaintext := by
  refine ⟨fun write member blob produced => decrypt_written ideal member produced, ?_⟩
  intro objectKey blob
  constructor
  · intro authentic plaintext misread
    exact authentic plaintext (decrypt_of_misread ideal misread)
  · intro harmless plaintext decrypted
    rcases decrypt_origin ideal decrypted with authentic | misread
    · exact authentic
    · exact harmless plaintext misread

end Decrypt

section Recorded

def zeroTag : Bytes :=
  List.replicate tagLen 0

def recordedDecrypt (entries : List (Nonce × Bytes × Bytes)) (nonce : Nonce)
    (ciphertext associated : Bytes) : Option Bytes :=
  let message := ciphertext.take (ciphertext.length - tagLen)
  if ciphertext = message ++ zeroTag ∧ (nonce, associated, message) ∈ entries then some message
  else none

theorem recordedDecrypt_eq_some_iff {entries : List (Nonce × Bytes × Bytes)} {nonce : Nonce}
    {ciphertext associated message : Bytes} :
    recordedDecrypt entries nonce ciphertext associated = some message ↔
      ciphertext = message ++ zeroTag ∧ (nonce, associated, message) ∈ entries := by
  have sized : zeroTag.length = tagLen := by simp [zeroTag]
  have stripped : (message ++ zeroTag).take ((message ++ zeroTag).length - tagLen) = message := by
    rw [List.length_append, sized, Nat.add_sub_cancel, List.take_left]
  constructor
  · intro accepted
    unfold recordedDecrypt at accepted
    dsimp only at accepted
    split_ifs at accepted with present
    cases accepted
    exact present
  · intro given
    obtain ⟨rfl, member⟩ := given
    unfold recordedDecrypt
    simp only [stripped, member, and_self, if_true]

/-- Ciphertexts are messages with a constant tag, accepted only where the entry
is on record; compression puts the magic number of a zstd frame in front. -/
@[reducible] def CipherSuite.recorded (entries : List (Nonce × Bytes × Bytes)) : CipherSuite where
  cipherEncrypt _ _ message _ := some (message ++ zeroTag)
  cipherDecrypt _ nonce ciphertext associated :=
    recordedDecrypt entries nonce ciphertext associated
  encodeAll plaintext := .ok ([0x28, 0xB5, 0x2F, 0xFD] ++ plaintext)
  decodeAll encoded :=
    if encoded.take 4 = [0x28, 0xB5, 0x2F, 0xFD] then .ok (encoded.drop 4)
    else .error "unknown frame descriptor"
  cipherEncrypt_length := by
    intro _ _ message _ ciphertext produced
    cases produced
    simp [zeroTag]
  decodeAll_encodeAll := by
    intro plaintext encoded produced
    cases produced
    rfl

theorem recorded_ideal {entries : List (Nonce × Bytes × Bytes)} (key : Key) {writes : Set Write}
    (onRecord : ∀ nonce associated message, (nonce, associated, message) ∈ entries ↔
      ∃ write ∈ writes, write.nonce.bytes = nonce ∧ asBytes write.objectKey = associated ∧
        @Write.message (CipherSuite.recorded entries) write = .ok message) :
    @Ideal (CipherSuite.recorded entries) key writes := by
  refine @Ideal.mk (CipherSuite.recorded entries) key writes ?_
  intro nonce ciphertext associated message
  refine recordedDecrypt_eq_some_iff.trans ?_
  rw [onRecord]
  constructor
  · intro given
    obtain ⟨rfl, write, member, sameNonce, sameKey, prepared⟩ := given
    exact ⟨write, member, sameNonce, sameKey, prepared, rfl⟩
  · intro given
    obtain ⟨write, member, sameNonce, sameKey, prepared, produced⟩ := given
    cases produced
    exact ⟨rfl, write, member, sameNonce, sameKey, prepared⟩

def catalogWrite : Write where
  layout := .zstd
  objectKey := "v1/catalog"
  nonce := ⟨List.replicate nonceLen 9, by decide⟩
  plaintext := [0x7B, 0x7D]

def catalogMessage : Bytes :=
  [0x28, 0xB5, 0x2F, 0xFD, 0x7B, 0x7D]

def exampleKey : Key where
  bytes := List.replicate keyLen 7
  bytes_length := by decide

@[reducible] def catalogSuite : CipherSuite :=
  CipherSuite.recorded [(catalogWrite.nonce.bytes, asBytes catalogWrite.objectKey, catalogMessage)]

attribute [local instance] catalogSuite

theorem catalogSuite_ideal : Ideal exampleKey {catalogWrite} := by
  apply recorded_ideal
  intro nonce associated message
  constructor
  · intro member
    cases List.mem_singleton.mp member
    exact ⟨catalogWrite, rfl, rfl, rfl, rfl⟩
  · intro given
    obtain ⟨write, member, rfl, rfl, prepared⟩ := given
    cases member
    cases prepared
    exact List.mem_singleton.mpr rfl

/-- One honest object, and every blob an attacker could make of it. -/
theorem decrypt_authentic_iff_catalog :
    (∀ write ∈ ({catalogWrite} : Set Write), ∀ blob, write.blob exampleKey = .ok blob →
      decrypt exampleKey write.objectKey blob = .ok write.plaintext) ∧
    ∀ objectKey blob,
      (∀ plaintext, decrypt exampleKey objectKey blob = .ok plaintext →
        Authentic exampleKey {catalogWrite} objectKey plaintext) ↔
      ∀ plaintext, Misread exampleKey {catalogWrite} objectKey blob plaintext →
        Authentic exampleKey {catalogWrite} objectKey plaintext :=
  decrypt_authentic_iff catalogSuite_ideal

/-- The compressed bytes of the one honest object, under the header `ATX1`,
pass for a plaintext nobody encrypted. -/
theorem decrypt_not_authentic : Ideal exampleKey {catalogWrite} ∧
    decrypt exampleKey "v1/catalog"
        (packed .plain catalogWrite.nonce.bytes (catalogMessage ++ zeroTag)) = .ok catalogMessage ∧
      ¬ Authentic exampleKey {catalogWrite} "v1/catalog" catalogMessage := by
  refine ⟨catalogSuite_ideal, by decide +kernel, ?_⟩
  intro authentic
  obtain ⟨write, member, _, _, same⟩ := authentic
  cases member
  exact absurd same (by decide)

end Recorded

end AgentTranscript
