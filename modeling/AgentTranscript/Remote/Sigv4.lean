import AgentTranscript.Library.Percent
import AgentTranscript.Text

/-!
Percent-encoding of signed requests: object paths keep their slashes, the names and values
of queries do not.
-/

set_option autoImplicit false

namespace AgentTranscript

open Percent

section Definitions

def isUnreserved (byte : UInt8) : Bool :=
  0x41 ≤ byte && byte ≤ 0x5A || 0x61 ≤ byte && byte ≤ 0x7A || 0x30 ≤ byte && byte ≤ 0x39 ||
    byte ∈ [0x2D, 0x5F, 0x2E, 0x7E]

/-- The digit of the table `HEX`. -/
def upperHex (nibble : UInt8) : Char :=
  "0123456789ABCDEF".toList.getD nibble.toNat '0'

/-- One turn of the loop in `encode`. -/
def encodeUriByte (keepSlash : Bool) (byte : UInt8) : List Char :=
  if isUnreserved byte then [Char.ofNat byte.toNat]
  else if byte = 0x2F && keepSlash then ['/']
  else ['%', upperHex (byte >>> 4), upperHex (byte &&& 0x0F)]

def Sigv4.encode (input : String) (keepSlash : Bool) : String :=
  String.ofList ((asBytes input).flatMap (encodeUriByte keepSlash))

/-- `R2::object_uri`. -/
def objectUri (bucket key : String) : String :=
  "/" ++ Sigv4.encode bucket false ++ "/" ++ Sigv4.encode key true

/-- The text that a percent-encoded text stands for, if its bytes are UTF-8. -/
def percentDecode (text : String) : Option String :=
  String.fromUTF8? (Percent.decode text.toList).toByteArray

/-- A text of unreserved characters, of escapes in upper case and, where they are kept, of
slashes. -/
inductive UriText (keepSlash : Bool) : List Char → Prop where
  | nil : UriText keepSlash []
  | unreserved {byte : UInt8} {rest : List Char} (allowed : isUnreserved byte = true)
      (others : UriText keepSlash rest) : UriText keepSlash (Char.ofNat byte.toNat :: rest)
  | slash {rest : List Char} (kept : keepSlash = true) (others : UriText keepSlash rest) :
      UriText keepSlash ('/' :: rest)
  | escape {high low : Char} {rest : List Char} (first : high ∈ "0123456789ABCDEF".toList)
      (second : low ∈ "0123456789ABCDEF".toList) (others : UriText keepSlash rest) :
      UriText keepSlash ('%' :: high :: low :: rest)

example : Sigv4.encode "a b/c&d" true = "a%20b/c%26d" := by decide +kernel

end Definitions

section Bytes

variable {keepSlash : Bool} {byte : UInt8}

theorem byte_all {property : UInt8 → Prop} (each : ∀ code < 256, property (UInt8.ofNat code))
    (byte : UInt8) : property byte := by
  have here := each byte.toNat byte.toNat_lt
  rwa [UInt8.ofNat_toNat] at here

theorem upperHex_nibbles (byte : UInt8) :
    ['%', upperHex (byte >>> 4), upperHex (byte &&& 0x0F)] = encodeByte true byte := by
  revert byte
  apply byte_all
  decide +kernel

theorem isUnreserved_ascii : isUnreserved byte = true →
    (Char.ofNat byte.toNat).toNat = byte.toNat ∧ byte.toNat ≤ 0x7F ∧ byte ≠ 0x25 ∧ byte ≠ 0x2F := by
  revert byte
  apply byte_all
  decide +kernel

theorem decode_encodeUriByte (keepSlash : Bool) (byte : UInt8) (rest : List Char) :
    Percent.decode (encodeUriByte keepSlash byte ++ rest) = byte :: Percent.decode rest := by
  unfold encodeUriByte
  split
  · rename_i allowed
    obtain ⟨code, ascii, percent, -⟩ := isUnreserved_ascii allowed
    have plain : Char.ofNat byte.toNat ≠ '%' := by
      intro same
      rw [same] at code
      exact percent (UInt8.toNat_inj.mp code.symm)
    rw [List.singleton_append, decode_char plain, utf8_ascii (by omega), code, UInt8.ofNat_toNat]
    rfl
  · split
    · rename_i slash
      rw [Bool.and_eq_true, decide_eq_true_eq] at slash
      rw [slash.1]
      exact decode_char (by decide)
    · rw [upperHex_nibbles]
      exact decode_encodeByte true byte rest

theorem decode_encodeUriBytes (keepSlash : Bool) (bytes : List UInt8) (rest : List Char) :
    Percent.decode (bytes.flatMap (encodeUriByte keepSlash) ++ rest) =
      bytes ++ Percent.decode rest := by
  induction bytes with
  | nil => rfl
  | cons byte bytes ih =>
      rw [List.flatMap_cons, List.append_assoc, decode_encodeUriByte, ih]
      rfl

theorem encodeUriByte_text (keepSlash : Bool) (byte : UInt8) {rest : List Char}
    (others : UriText keepSlash rest) :
    UriText keepSlash (encodeUriByte keepSlash byte ++ rest) := by
  unfold encodeUriByte
  split
  · rename_i allowed
    exact .unreserved allowed others
  · split
    · rename_i slash
      rw [Bool.and_eq_true] at slash
      exact .slash slash.2 others
    · have digits : ∀ byte : UInt8, upperHex (byte >>> 4) ∈ "0123456789ABCDEF".toList ∧
          upperHex (byte &&& 0x0F) ∈ "0123456789ABCDEF".toList := by
        apply byte_all
        decide +kernel
      exact .escape (digits byte).1 (digits byte).2 others

end Bytes

section Encode

variable {keepSlash : Bool}

theorem toList_sigv4 (input : String) (keepSlash : Bool) : (Sigv4.encode input keepSlash).toList =
    (asBytes input).flatMap (encodeUriByte keepSlash) := by
  unfold Sigv4.encode
  rw [String.toList_ofList]

theorem decode_sigv4 (input : String) (keepSlash : Bool) :
    Percent.decode (Sigv4.encode input keepSlash).toList = asBytes input := by
  have read := decode_encodeUriBytes keepSlash (asBytes input) []
  rwa [List.append_nil, Percent.decode, List.append_nil, ← toList_sigv4] at read

theorem percentDecode_sigv4 (input : String) (keepSlash : Bool) :
    percentDecode (Sigv4.encode input keepSlash) = some input := by
  unfold percentDecode
  rw [decode_sigv4, asBytes_toByteArray]
  unfold String.fromUTF8?
  rw [dif_pos input.isValidUTF8]
  rfl

theorem Sigv4.encode_injective (keepSlash : Bool) :
    Function.Injective fun input => Sigv4.encode input keepSlash := by
  intro left right same
  have read := congrArg percentDecode same
  rw [percentDecode_sigv4, percentDecode_sigv4] at read
  exact Option.some_inj.mp read

theorem Sigv4.encode_text (input : String) (keepSlash : Bool) :
    UriText keepSlash (Sigv4.encode input keepSlash).toList := by
  rw [toList_sigv4]
  induction asBytes input with
  | nil => exact .nil
  | cons byte bytes ih => exact encodeUriByte_text keepSlash byte ih

end Encode

section Segments

/-- Without a slash both modes are the same. -/
theorem encodeUriBytes_mode {bytes : List UInt8} (whole : 0x2F ∉ bytes) :
    bytes.flatMap (encodeUriByte true) = bytes.flatMap (encodeUriByte false) := by
  have same : ∀ byte ∈ bytes, encodeUriByte true byte = encodeUriByte false byte := by
    intro byte member
    have inside : byte ≠ 0x2F := fun slash => whole (slash ▸ member)
    simp [encodeUriByte, inside]
  rw [List.flatMap_congr same]

theorem UriText.chars {keepSlash : Bool} {text : List Char} (written : UriText keepSlash text) :
    ∀ char ∈ text, char = '%' ∨ char = '/' ∧ keepSlash = true ∨
      isUnreserved (UInt8.ofNat char.toNat) = true := by
  have digits : ∀ digit ∈ "0123456789ABCDEF".toList,
      isUnreserved (UInt8.ofNat digit.toNat) = true := by
    have table : "0123456789ABCDEF".toList =
      ['0', '1', '2', '3', '4', '5', '6', '7', '8', '9', 'A', 'B', 'C', 'D', 'E', 'F'] := by simp
    rw [table]
    exact List.all_eq_true.mp (by decide)
  induction written with
  | nil => simp
  | @unreserved byte rest allowed others ih =>
      intro char member
      rcases List.mem_cons.mp member with rfl | after
      · rw [(isUnreserved_ascii allowed).1, UInt8.ofNat_toNat]
        exact .inr (.inr allowed)
      · exact ih char after
  | slash kept others ih =>
      intro char member
      rcases List.mem_cons.mp member with rfl | after
      · exact .inr (.inl ⟨rfl, kept⟩)
      · exact ih char after
  | escape first second others ih =>
      intro char member
      simp only [List.mem_cons] at member
      rcases member with rfl | rfl | rfl | after
      · exact .inl rfl
      · exact .inr (.inr (digits _ first))
      · exact .inr (.inr (digits _ second))
      · exact ih char after

theorem slash_not_mem_sigv4 (input : String) : '/' ∉ (Sigv4.encode input false).toList := by
  intro member
  rcases (Sigv4.encode_text input false).chars _ member with percent | kept | allowed
  · cases percent
  · cases kept.2
  · exact absurd allowed (by decide)

/-- With slashes kept, each segment is encoded on its own. -/
theorem Sigv4.encode_segments (input : String) : Sigv4.encode input true =
    "/".intercalate ((splitChar input '/').map fun segment => Sigv4.encode segment false) := by
  apply String.toList_inj.mp
  have parts : (splitChar input '/').map (fun segment => (Sigv4.encode segment false).toList) =
      (input.toList.splitOn '/').map fun part => (utf8 part).flatMap (encodeUriByte true) := by
    unfold splitChar
    rw [List.map_map]
    apply List.map_congr_left
    intro part member
    have whole : 0x2F ∉ utf8 part := slash_not_mem_utf8 (not_mem_of_mem_splitOn member)
    show (Sigv4.encode (String.ofList part) false).toList = _
    rw [toList_sigv4, asBytes, String.toList_ofList, encodeUriBytes_mode whole]
  have slash : "/".toList = ['/'] := by simp
  rw [String.toList_intercalate, List.map_map, slash]
  show _ = ['/'].intercalate ((splitChar input '/').map
    fun segment => (Sigv4.encode segment false).toList)
  rw [parts, toList_sigv4]
  have whole := @List.intercalate_splitOn Char input.toList _ _ '/'
  obtain ⟨first, others, shape⟩ := List.exists_cons_of_ne_nil
    (List.splitOn_ne_nil '/' input.toList)
  rw [shape, Delimited.intercalate_cons] at whole
  have slashed : ∀ part, (utf8 ('/' :: part)).flatMap (encodeUriByte true) =
      '/' :: (utf8 part).flatMap (encodeUriByte true) := by
    intro part
    have byte : encodeUriByte true 0x2F = ['/'] := by decide
    show encodeUriByte true 0x2F ++ (utf8 part).flatMap (encodeUriByte true) = _
    rw [byte]
    rfl
  have spread : ∀ parts : List (List Char),
      (utf8 (parts.flatMap ('/' :: ·))).flatMap (encodeUriByte true) =
        parts.flatMap fun part => '/' :: (utf8 part).flatMap (encodeUriByte true) := by
    intro parts
    induction parts with
    | nil => rfl
    | cons part parts ih =>
        rw [List.flatMap_cons, List.flatMap_cons, utf8_append, List.flatMap_append, ih, slashed]
  rw [shape, List.map_cons, Delimited.intercalate_cons, asBytes, ← whole, utf8_append,
    List.flatMap_append, spread, List.flatMap_map]

end Segments

section Keys

theorem toList_objectUri (bucket key : String) : (objectUri bucket key).toList =
    '/' :: ((Sigv4.encode bucket false).toList ++ '/' :: (Sigv4.encode key true).toList) := by
  have slash : "/".toList = ['/'] := by simp
  unfold objectUri
  rw [String.toList_append, String.toList_append, String.toList_append, slash]
  simp only [List.append_assoc, List.cons_append, List.nil_append]

/-- A request path names its bucket and its object. -/
theorem objectUri_inj {bucket other key another : String} :
    objectUri bucket key = objectUri other another ↔ bucket = other ∧ key = another := by
  constructor
  · intro same
    have chars := congrArg String.toList same
    rw [toList_objectUri, toList_objectUri] at chars
    obtain ⟨first, second⟩ := Delimited.first_inj (slash_not_mem_sigv4 bucket)
      (slash_not_mem_sigv4 other) (List.cons_eq_cons.mp chars).2
    exact ⟨Sigv4.encode_injective false (String.toList_inj.mp first),
      Sigv4.encode_injective true (String.toList_inj.mp second)⟩
  · intro same
    rw [same.1, same.2]

/-- Percent-encoding can be read back in both modes, uses only the characters that it may,
and with slashes kept works segment by segment, so that objects have paths of their own. -/
theorem Sigv4.encode_faithful :
    (∀ input keepSlash, percentDecode (Sigv4.encode input keepSlash) = some input) ∧
    (∀ input keepSlash, UriText keepSlash (Sigv4.encode input keepSlash).toList) ∧
    (∀ keepSlash, Function.Injective fun input => Sigv4.encode input keepSlash) ∧
    (∀ input, Sigv4.encode input true =
      "/".intercalate ((splitChar input '/').map fun segment => Sigv4.encode segment false)) ∧
    ∀ bucket key other, objectUri bucket key = objectUri bucket other → key = other :=
  ⟨percentDecode_sigv4, Sigv4.encode_text, Sigv4.encode_injective, Sigv4.encode_segments,
    fun _ _ _ same => (objectUri_inj.mp same).2⟩

end Keys

end AgentTranscript
