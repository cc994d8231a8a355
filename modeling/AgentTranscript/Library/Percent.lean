import Mathlib

/-!
Percent-encoding. A percent sign and two hexadecimal digits stand for a byte; other
characters stand for the bytes of their UTF-8 encodings.
-/

set_option autoImplicit false

namespace Percent

/-- UTF-8. -/
def utf8 (chars : List Char) : List UInt8 :=
  chars.flatMap String.utf8EncodeChar

def hexValue (char : Char) : Option Nat :=
  let code := char.toNat
  if 0x30 ≤ code ∧ code ≤ 0x39 then some (code - 0x30)
  else if 0x41 ≤ code ∧ code ≤ 0x46 then some (code - 0x37)
  else if 0x61 ≤ code ∧ code ≤ 0x66 then some (code - 0x57)
  else none

/-- The hexadecimal digits, upper case or lower case. -/
def hexDigit (upper : Bool) (value : Nat) : Char :=
  if value < 10 then Char.ofNat (0x30 + value)
  else if upper then Char.ofNat (0x37 + value)
  else Char.ofNat (0x57 + value)

def encodeByte (upper : Bool) (byte : UInt8) : List Char :=
  ['%', hexDigit upper (byte.toNat / 16), hexDigit upper (byte.toNat % 16)]

/-- The byte that a percent sign before two characters stands for. -/
def escape (high low : Char) : Option UInt8 :=
  (hexValue high).bind fun first => (hexValue low).map fun second =>
    UInt8.ofNat (first * 16 + second)

def decode : List Char → List UInt8
  | '%' :: high :: low :: rest =>
      match escape high low with
      | some byte => byte :: decode rest
      | none => 0x25 :: decode (high :: low :: rest)
  | char :: rest => String.utf8EncodeChar char ++ decode rest
  | [] => []

/-- Characters of a set are written as the escapes of their bytes. -/
def encodeChar (set : Char → Bool) (char : Char) : List Char :=
  if set char then (String.utf8EncodeChar char).flatMap (encodeByte true) else [char]

def encode (set : Char → Bool) (chars : List Char) : List Char :=
  chars.flatMap (encodeChar set)

section Bytes

variable {char : Char} {rest : List Char} {byte : UInt8}

theorem utf8_ascii (ascii : char.toNat ≤ 0x7F) :
    String.utf8EncodeChar char = [UInt8.ofNat char.toNat] := by
  unfold String.utf8EncodeChar
  exact if_pos ascii

/-- The bytes of other characters are not those of ASCII characters. -/
theorem utf8_high (high : 0x7F < char.toNat) :
    ∀ byte ∈ String.utf8EncodeChar char, 0x80 ≤ byte.toNat := by
  intro byte member
  have beyond : ¬ char.val.toNat ≤ 0x7F := Nat.not_le.mpr high
  unfold String.utf8EncodeChar at member
  dsimp only at member
  rw [if_neg beyond] at member
  split_ifs at member <;> simp only [List.mem_cons, List.not_mem_nil, or_false] at member <;>
    rcases member with rfl | rfl | rfl | rfl <;> simp only [UInt8.toNat_ofNat'] <;> omega

theorem mem_utf8_iff {chars : List Char} (ascii : byte.toNat ≤ 0x7F) :
    byte ∈ utf8 chars ↔ ∃ char ∈ chars, char.toNat = byte.toNat := by
  unfold utf8
  rw [List.mem_flatMap]
  refine exists_congr fun char => and_congr_right fun _ => ?_
  by_cases low : char.toNat ≤ 0x7F
  · rw [utf8_ascii low, List.mem_singleton, ← UInt8.toNat_inj, UInt8.toNat_ofNat']
    omega
  · constructor
    · intro member
      have high := utf8_high (Nat.lt_of_not_le low) byte member
      omega
    · intro same
      omega

theorem slash_not_mem_utf8 {chars : List Char} (whole : '/' ∉ chars) : 0x2F ∉ utf8 chars := by
  intro member
  obtain ⟨char, among, code⟩ := (mem_utf8_iff (by decide)).mp member
  obtain rfl : char = '/' := Char.toNat_inj.mp code
  exact whole among

theorem decode_char (plain : char ≠ '%') :
    decode (char :: rest) = String.utf8EncodeChar char ++ decode rest := by
  rw [decode]
  intro high low tail same
  exact absurd same plain

theorem decode_escape {high low : Char} (escaped : escape high low = some byte) :
    decode ('%' :: high :: low :: rest) = byte :: decode rest := by
  rw [decode, escaped]

theorem hexValue_hexDigit {upper : Bool} {value : Nat} (small : value < 16) :
    hexValue (hexDigit upper value) = some value := by
  revert value
  cases upper <;> decide

theorem decode_encodeByte (upper : Bool) (byte : UInt8) (rest : List Char) :
    decode (encodeByte upper byte ++ rest) = byte :: decode rest := by
  have bounded : byte.toNat < 256 := byte.toNat_lt
  apply decode_escape
  unfold escape
  rw [hexValue_hexDigit (by omega), hexValue_hexDigit (by omega)]
  simp only [Option.bind_some, Option.map_some, Option.some.injEq]
  have whole : byte.toNat / 16 * 16 + byte.toNat % 16 = byte.toNat := by omega
  rw [whole]
  exact UInt8.ofNat_toNat

theorem decode_encodeChar (set : Char → Bool) (plain : char ≠ '%') (rest : List Char) :
    decode (encodeChar set char ++ rest) = String.utf8EncodeChar char ++ decode rest := by
  unfold encodeChar
  split
  · induction String.utf8EncodeChar char with
    | nil => rfl
    | cons byte bytes ih =>
        rw [List.flatMap_cons, List.append_assoc, decode_encodeByte, ih]
        rfl
  · exact decode_char plain

/-- What encoding writes, decoding reads, unless escapes are already there. -/
theorem decode_encode (set : Char → Bool) {chars : List Char} (plain : '%' ∉ chars) :
    decode (encode set chars) = utf8 chars := by
  induction chars with
  | nil => rfl
  | cons char chars ih =>
      rw [List.mem_cons, not_or] at plain
      have first := decode_encodeChar set (Ne.symm plain.1) (encode set chars)
      unfold encode at first ih ⊢
      rw [List.flatMap_cons, first, ih plain.2]
      rfl

theorem decode_plain {chars : List Char} (plain : '%' ∉ chars) : decode chars = utf8 chars := by
  have same : encode (fun _ => false) chars = chars := by
    unfold encode encodeChar
    simp
  rw [← decode_encode (fun _ => false) plain, same]

theorem utf8_ne_nil (char : Char) : String.utf8EncodeChar char ≠ [] := by
  intro empty
  have size := String.length_utf8EncodeChar char
  rw [empty] at size
  exact absurd size (Nat.ne_of_lt (Char.utf8Size_pos char))

theorem encode_plain {set : Char → Bool} {chars : List Char}
    (plain : ∀ char ∈ chars, set char = false) : encode set chars = chars := by
  induction chars with
  | nil => rfl
  | cons char chars ih =>
      have kept : encodeChar set char = [char] := if_neg (by simp [plain char List.mem_cons_self])
      unfold encode at ih ⊢
      rw [List.flatMap_cons, kept, ih fun other member =>
        plain other (List.mem_cons_of_mem char member)]
      rfl

/-- What an encoded text is made of. -/
theorem encode_all {set : Char → Bool} {property : Char → Prop} {chars : List Char}
    (kept : ∀ char ∈ chars, set char = false → property char) (percent : property '%')
    (digit : ∀ value < 16, property (hexDigit true value)) :
    ∀ char ∈ encode set chars, property char := by
  intro char member
  obtain ⟨source, among, inside⟩ := List.mem_flatMap.mp member
  unfold encodeChar at inside
  split at inside
  · obtain ⟨byte, -, written⟩ := List.mem_flatMap.mp inside
    have bound : byte.toNat < 256 := byte.toNat_lt
    simp only [encodeByte, List.mem_cons, List.not_mem_nil, or_false] at written
    rcases written with rfl | rfl | rfl
    · exact percent
    · exact digit _ (by omega)
    · exact digit _ (by omega)
  · rename_i plain
    obtain rfl := List.mem_singleton.mp inside
    exact kept char among (Bool.eq_false_iff.mpr plain)

/-- A text without escapes is its own encoding. -/
theorem encode_eq_self {set : Char → Bool} {chars : List Char} (plain : '%' ∉ encode set chars) :
    encode set chars = chars := by
  induction chars with
  | nil => rfl
  | cons char chars ih =>
      unfold encode at plain ih ⊢
      rw [List.flatMap_cons, List.mem_append, not_or] at plain
      have kept : encodeChar set char = [char] := by
        unfold encodeChar at plain ⊢
        split
        · rename_i encoded
          rw [if_pos encoded] at plain
          obtain ⟨first, others, shape⟩ := List.exists_cons_of_ne_nil (utf8_ne_nil char)
          rw [shape, List.flatMap_cons] at plain
          exact absurd (List.mem_append_left _ List.mem_cons_self) plain.1
        · rfl
      rw [List.flatMap_cons, kept, ih plain.2]
      rfl

theorem utf8_append (chars others : List Char) : utf8 (chars ++ others) = utf8 chars ++ utf8 others :=
  List.flatMap_append

theorem length_utf8_append (chars others : List Char) :
    (utf8 (chars ++ others)).length = (utf8 chars).length + (utf8 others).length := by
  simp [utf8]

theorem length_utf8_perm {chars others : List Char} (same : chars.Perm others) :
    (utf8 chars).length = (utf8 others).length :=
  (same.flatMap_right _).length_eq

/-- A text with fewer of the same characters has fewer bytes. -/
theorem length_utf8_lt {chars others : List Char} (among : chars.Sublist others)
    (fewer : chars.length < others.length) : (utf8 chars).length < (utf8 others).length := by
  obtain ⟨rest, reordered⟩ := among.exists_perm_append
  have longer := reordered.length_eq
  rw [List.length_append] at longer
  obtain ⟨first, last, rfl⟩ := List.exists_cons_of_length_pos (show 0 < rest.length by omega)
  have positive : 0 < (utf8 (first :: last)).length := by
    have one := List.length_pos_of_ne_nil (utf8_ne_nil first)
    unfold utf8
    rw [List.flatMap_cons, List.length_append]
    omega
  rw [length_utf8_perm reordered, length_utf8_append]
  omega

end Bytes

end Percent
