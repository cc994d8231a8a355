import AgentTranscript.Text

/-!
Character references of XML: decoding them, and that it gives back every text of which each
character is written literally or as a reference.
-/

set_option autoImplicit false

namespace AgentTranscript

section Definitions

/-- `char::to_digit`. -/
def digitValue (radix : Nat) (char : Char) : Option Nat :=
  let code := char.toNat
  let value :=
    if '0' ≤ char && char ≤ '9' then some (code - 48)
    else if 'a' ≤ char && char ≤ 'z' then some (code - 87)
    else if 'A' ≤ char && char ≤ 'Z' then some (code - 55)
    else none
  value.filter (· < radix)

def pushDigit (radix limit : Nat) (number : Nat) (char : Char) : Option Nat := do
  let value ← digitValue radix char
  let next := radix * number + value
  if next < limit then some next else none

/-- `from_str_radix` of an unsigned type with values below `limit`. -/
def parseUnsigned (radix limit : Nat) (text : String) : Option Nat :=
  let digits := (stripPrefix text "+").getD text
  if digits.isEmpty then none else digits.toList.foldlM (pushDigit radix limit) 0

/-- `char::from_u32`. -/
def charFromU32 (code : Nat) : Option Char :=
  if code.isValidChar then some (Char.ofNat code) else none

def predefinedEntities : List (String × Char) :=
  [("amp", '&'), ("lt", '<'), ("gt", '>'), ("quot", '"'), ("apos", '\'')]

def decodeEntity (entity : String) : Option Char :=
  match predefinedEntities.lookup entity with
  | some char => some char
  | none =>
      (((stripPrefix entity "#x").bind (parseUnsigned 16 (2 ^ 32))).or
        ((stripPrefix entity "#").bind (parseUnsigned 10 (2 ^ 32)))).bind charFromU32

theorem splitOnce_length {text front rest : String} {separator : Char}
    (split : splitOnce text separator = some (front, rest)) : rest.length < text.length := by
  rcases splitOnce_cases text separator with whole | parts
  · rw [whole.2] at split
    cases split
  · obtain ⟨first, later, shape, -, found⟩ := parts
    cases found.symm.trans split
    rw [shape, String.length_append, String.length_append, String.length_singleton]
    omega

/-- References that are not known stay as they are written. -/
def unescape (text : String) : String :=
  match _ : splitOnce text '&' with
  | none => text
  | some (front, tail) =>
      match _ : splitOnce tail ';' with
      | none => text
      | some (entity, rest) =>
          front ++ ((decodeEntity entity).elim ("&" ++ entity ++ ";") String.singleton) ++
            unescape rest
termination_by text.length
decreasing_by exact (splitOnce_length ‹_›).trans (splitOnce_length ‹_›)

end Definitions

section Spelling

/-- The production `Char` of XML, without the characters that begin markup. -/
def isXmlLiteral (char : Char) : Bool :=
  let code := char.toNat
  (code = 0x9 || code = 0xA || code = 0xD || (0x20 ≤ code && code ≠ 0xFFFE && code ≠ 0xFFFF)) &&
    char ≠ '<' && char ≠ '&'

/-- Digits of a number, with any number of leading zeros and in either case. -/
structure IsNumeral (radix : Nat) (digits : String) (number : Nat) : Prop where
  nonempty : digits ≠ ""
  value : digits.toList.foldlM (fun number char =>
    (digitValue radix char).map (radix * number + ·)) 0 = some number

/-- The ways to write a character. -/
inductive Spells : Char → String → Prop where
  | literal {char : Char} (allowed : isXmlLiteral char = true) :
      Spells char (String.singleton char)
  | named {name : String} {char : Char} (predefined : (name, char) ∈ predefinedEntities) :
      Spells char ("&" ++ name ++ ";")
  | decimal {char : Char} {digits : String} (numeral : IsNumeral 10 digits char.toNat) :
      Spells char ("&" ++ ("#" ++ digits) ++ ";")
  | hexadecimal {char : Char} {digits : String} (numeral : IsNumeral 16 digits char.toNat) :
      Spells char ("&" ++ ("#x" ++ digits) ++ ";")

structure SpelledChar where
  char : Char
  text : String
  spells : Spells char text

def SpelledChar.IsLiteralSpace (spelled : SpelledChar) : Prop :=
  spelled.text = String.singleton spelled.char ∧ isWhitespace spelled.char = true

instance (spelled : SpelledChar) : Decidable spelled.IsLiteralSpace :=
  inferInstanceAs (Decidable (_ ∧ _))

/-- The text that is meant. -/
def plainText (spelled : List SpelledChar) : String :=
  String.ofList (spelled.map (·.char))

/-- The text as it is written. -/
def writtenText (spelled : List SpelledChar) : String :=
  String.ofList (spelled.flatMap (·.text.toList))

/-- No white space is written literally at the ends. -/
def EndsPlain (spelled : List SpelledChar) : Prop :=
  (∀ first ∈ spelled.head?, ¬ first.IsLiteralSpace) ∧
    ∀ last ∈ spelled.getLast?, ¬ last.IsLiteralSpace

end Spelling

section Numerals

variable {radix limit : Nat}

theorem foldlM_numeral_ge (positive : 0 < radix) (chars : List Char) :
    ∀ start number, chars.foldlM (fun number char =>
        (digitValue radix char).map (radix * number + ·)) start = some number →
      start ≤ number := by
  induction chars with
  | nil =>
      intro start number folded
      cases folded
      exact le_rfl
  | cons char rest ih =>
      intro start number folded
      obtain ⟨next, pushed, folded⟩ := Option.bind_eq_some_iff.mp folded
      obtain ⟨value, -, rfl⟩ := Option.map_eq_some_iff.mp pushed
      have grown : start ≤ radix * start := Nat.le_mul_of_pos_left start positive
      exact (Nat.le_add_right_of_le grown).trans (ih _ _ folded)

theorem foldlM_pushDigit (positive : 0 < radix) (chars : List Char) :
    ∀ start number, chars.foldlM (fun number char =>
        (digitValue radix char).map (radix * number + ·)) start = some number →
      number < limit → chars.foldlM (pushDigit radix limit) start = some number := by
  induction chars with
  | nil => exact fun _ _ folded _ => folded
  | cons char rest ih =>
      intro start number folded below
      obtain ⟨next, pushed, folded⟩ := Option.bind_eq_some_iff.mp folded
      obtain ⟨value, digit, rfl⟩ := Option.map_eq_some_iff.mp pushed
      have bounded := foldlM_numeral_ge positive rest _ _ folded
      have step : pushDigit radix limit start char = some (radix * start + value) := by
        simp [pushDigit, digit, Nat.lt_of_le_of_lt bounded below]
      rw [List.foldlM_cons, step]
      exact ih _ _ folded below

theorem digitValue_of_foldlM {chars : List Char} :
    ∀ {start number : Nat}, chars.foldlM (fun number char =>
        (digitValue radix char).map (radix * number + ·)) start = some number →
      ∀ char ∈ chars, (digitValue radix char).isSome := by
  induction chars with
  | nil => exact fun _ _ member => absurd member List.not_mem_nil
  | cons first rest ih =>
      intro start number folded char member
      obtain ⟨next, pushed, folded⟩ := Option.bind_eq_some_iff.mp folded
      obtain ⟨value, digit, -⟩ := Option.map_eq_some_iff.mp pushed
      rcases List.mem_cons.mp member with rfl | later
      · simp [digit]
      · exact ih folded char later

variable {digits : String} {number : Nat}

theorem IsNumeral.not_mem (numeral : IsNumeral radix digits number) {char : Char}
    (other : digitValue radix char = none) : char ∉ digits.toList := by
  intro member
  have digit := digitValue_of_foldlM numeral.value char member
  rw [other] at digit
  cases digit

theorem parseUnsigned_numeral (positive : 0 < radix) (numeral : IsNumeral radix digits number)
    (below : number < limit) : parseUnsigned radix limit digits = some number := by
  have plus : stripPrefix digits "+" = none := by
    cases stripped : stripPrefix digits "+" with
    | none => rfl
    | some rest =>
        have inside : '+' ∈ digits.toList := by
          rw [stripPrefix_eq_some_iff.mp stripped]
          simp
        exact absurd inside (numeral.not_mem (by simp [digitValue]))
  have filled : digits.isEmpty = false := by
    simpa [String.isEmpty_iff] using numeral.nonempty
  simp only [parseUnsigned, plus, Option.getD_none, filled, Bool.false_eq_true, if_false]
  exact foldlM_pushDigit positive digits.toList 0 number numeral.value below

end Numerals

section Decode

variable {char : Char} {entity text rest : String}

theorem charFromU32_toNat (char : Char) : charFromU32 char.toNat = some char := by
  have valid : char.toNat.isValidChar := char.valid
  rw [charFromU32, if_pos valid, Char.ofNat_toNat]

theorem toNat_lt (char : Char) : char.toNat < 2 ^ 32 := char.val.toNat_lt

theorem lookup_numeric (digits : String) : predefinedEntities.lookup ("#" ++ digits) = none := by
  have apart : ∀ name : String, '#' ∉ name.toList → ("#" ++ digits == name) = false := by
    intro name absent
    rw [beq_eq_false_iff_ne]
    rintro rfl
    exact absent (by simp)
  simp [predefinedEntities, List.lookup, apart]

theorem hexMark (digits : String) : "#x" ++ digits = "#" ++ ("x" ++ digits) := by
  rw [← String.append_assoc]
  rfl

/-- The references that a character may be written as. -/
theorem Spells.cases_reference {spelled : String} (spells : Spells char spelled) :
    (spelled = String.singleton char ∧ char ≠ '&') ∨
      ∃ entity, spelled = "&" ++ entity ++ ";" ∧ ';' ∉ entity.toList ∧
        decodeEntity entity = some char := by
  cases spells with
  | literal allowed =>
      refine .inl ⟨rfl, ?_⟩
      rintro rfl
      exact absurd allowed (by decide)
  | named predefined =>
      rename_i name
      refine .inr ⟨name, rfl, ?_⟩
      simp only [predefinedEntities, List.mem_cons, Prod.mk.injEq, List.not_mem_nil, or_false]
        at predefined
      rcases predefined with ⟨rfl, rfl⟩ | ⟨rfl, rfl⟩ | ⟨rfl, rfl⟩ | ⟨rfl, rfl⟩ | ⟨rfl, rfl⟩ <;>
        exact ⟨by simp, rfl⟩
  | decimal numeral =>
      rename_i digits
      refine .inr ⟨_, rfl, ?_, ?_⟩
      · simpa using numeral.not_mem (by decide : digitValue 10 ';' = none)
      · have plain : stripPrefix ("#" ++ digits) "#x" = none := by
          cases given : stripPrefix ("#" ++ digits) "#x" with
          | none => rfl
          | some later =>
              have shape : digits = "x" ++ later :=
                String.append_right_inj "#" |>.mp
                  ((stripPrefix_eq_some_iff.mp given).trans (hexMark later))
              have inside : 'x' ∈ digits.toList := by
                rw [shape]
                simp
              exact absurd inside (numeral.not_mem (by decide))
        have stripped : stripPrefix ("#" ++ digits) "#" = some digits :=
          stripPrefix_eq_some_iff.mpr rfl
        rw [decodeEntity, lookup_numeric]
        simp only [plain, stripped, Option.bind_none, Option.none_or, Option.bind_some,
          parseUnsigned_numeral (by decide) numeral (toNat_lt char)]
        exact charFromU32_toNat char
  | hexadecimal numeral =>
      rename_i digits
      refine .inr ⟨_, rfl, ?_, ?_⟩
      · simpa using numeral.not_mem (by decide : digitValue 16 ';' = none)
      · have stripped : stripPrefix ("#x" ++ digits) "#x" = some digits :=
          stripPrefix_eq_some_iff.mpr rfl
        rw [decodeEntity, hexMark, lookup_numeric, ← hexMark]
        simp only [stripped, Option.bind_some, Option.some_or,
          parseUnsigned_numeral (by decide) numeral (toNat_lt char)]
        exact charFromU32_toNat char

theorem unescape_plain (absent : '&' ∉ text.toList) : unescape text = text := by
  rcases splitOnce_cases text '&' with whole | parts
  · rw [unescape]
    split
    · rfl
    · rename_i split
      rw [whole.2] at split
      cases split
  · obtain ⟨first, later, rfl, -, -⟩ := parts
    exact absurd (by simp) absent

variable {front tail : String}

theorem unescape_closed (found : splitOnce text '&' = some (front, tail))
    (closed : splitOnce tail ';' = some (entity, rest)) :
    unescape text = front ++ ((decodeEntity entity).elim ("&" ++ entity ++ ";") String.singleton) ++
      unescape rest := by
  rw [unescape]
  split
  · rename_i split
    rw [found] at split
    cases split
  · rename_i split
    cases found.symm.trans split
    split
    · rename_i open_
      rw [closed] at open_
      cases open_
    · rename_i split
      cases closed.symm.trans split
      rfl

theorem unescape_unclosed (found : splitOnce text '&' = some (front, tail))
    (unclosed : splitOnce tail ';' = none) : unescape text = text := by
  rw [unescape]
  split
  · rfl
  · rename_i split
    cases found.symm.trans split
    split
    · rfl
    · rename_i closed
      rw [unclosed] at closed
      cases closed

theorem unescape_literal (other : char ≠ '&') (text : String) :
    unescape (String.singleton char ++ text) = String.singleton char ++ unescape text := by
  rcases splitOnce_cases text '&' with whole | parts
  · rw [unescape_plain whole.1, unescape_plain]
    simpa [other.symm] using whole.1
  · obtain ⟨first, later, shape, absent, found⟩ := parts
    have longer : splitOnce (String.singleton char ++ text) '&' =
        some (String.singleton char ++ first, later) := by
      have missing : '&' ∉ (String.singleton char ++ first).toList := by
        simpa [other.symm] using absent
      have whole : String.singleton char ++ text =
          String.singleton char ++ first ++ String.singleton '&' ++ later := by
        rw [shape]
        simp only [String.append_assoc]
      rw [whole]
      exact splitOnce_append missing
    cases closed : splitOnce later ';' with
    | none => rw [unescape_unclosed found closed, unescape_unclosed longer closed]
    | some pair =>
        rw [unescape_closed found closed, unescape_closed longer closed]
        simp only [String.append_assoc]

theorem unescape_reference (closed : ';' ∉ entity.toList) (known : decodeEntity entity = some char)
    (rest : String) :
    unescape ("&" ++ entity ++ ";" ++ rest) = String.singleton char ++ unescape rest := by
  have found : splitOnce ("&" ++ entity ++ ";" ++ rest) '&' = some ("", entity ++ ";" ++ rest) := by
    have split : splitOnce ("" ++ String.singleton '&' ++ (entity ++ ";" ++ rest)) '&' =
        some ("", entity ++ ";" ++ rest) := splitOnce_append (by simp)
    have whole : "&" ++ entity ++ ";" ++ rest =
        "" ++ String.singleton '&' ++ (entity ++ ";" ++ rest) := by
      rw [String.empty_append]
      simp only [String.append_assoc]
      rfl
    rwa [whole]
  rw [unescape_closed found (splitOnce_append closed), known]
  simp

end Decode

section Written

variable {spelled : List SpelledChar}

theorem writtenText_cons (first : SpelledChar) (rest : List SpelledChar) :
    writtenText (first :: rest) = first.text ++ writtenText rest := by
  apply String.toList_inj.mp
  simp [writtenText]

theorem plainText_cons (first : SpelledChar) (rest : List SpelledChar) :
    plainText (first :: rest) = String.singleton first.char ++ plainText rest := by
  apply String.toList_inj.mp
  simp [plainText]

/-- Every spelling is decoded to what it means. -/
theorem unescape_written (spelled : List SpelledChar) :
    unescape (writtenText spelled) = plainText spelled := by
  induction spelled with
  | nil => exact unescape_plain (by simp [writtenText])
  | cons first rest ih =>
      rw [writtenText_cons, plainText_cons, ← ih]
      rcases first.spells.cases_reference with literal | reference
      · rw [literal.1]
        exact unescape_literal literal.2 _
      · obtain ⟨entity, shape, closed, known⟩ := reference
        rw [shape]
        exact unescape_reference closed known _

/-- Dropping what satisfies `p` from the texts of items drops whole items, when an item either
satisfies `p` throughout or begins otherwise. -/
theorem dropWhile_flatMap {α β : Type*} {f : α → List β} {p : β → Bool} {dropped : α → Bool}
    (gone : ∀ item, dropped item = true → ∀ part ∈ f item, p part = true)
    (kept : ∀ item, dropped item = false → ∃ first rest, f item = first :: rest ∧ p first = false)
    (items : List α) :
    (items.flatMap f).dropWhile p = (items.dropWhile dropped).flatMap f := by
  induction items with
  | nil => rfl
  | cons item rest ih =>
      cases drops : dropped item with
      | true =>
          rw [List.flatMap_cons, List.dropWhile_append_of_pos (gone item drops), ih,
            List.dropWhile_cons_of_pos drops]
      | false =>
          obtain ⟨first, others, shape, differs⟩ := kept item drops
          have stays : ¬ dropped item = true := by simp [drops]
          have begins : ¬ p first = true := by simp [differs]
          rw [List.dropWhile_cons_of_neg stays, List.flatMap_cons, shape, List.cons_append,
            List.dropWhile_cons_of_neg begins]

theorem rdropWhile_flatMap {α β : Type*} {f : α → List β} {p : β → Bool} {dropped : α → Bool}
    (gone : ∀ item, dropped item = true → ∀ part ∈ f item, p part = true)
    (kept : ∀ item, dropped item = false → ∃ rest last, f item = rest ++ [last] ∧ p last = false)
    (items : List α) :
    (items.flatMap f).rdropWhile p = (items.rdropWhile dropped).flatMap f := by
  have turned := dropWhile_flatMap (f := fun item => (f item).reverse)
    (fun item drops part member => gone item drops part (List.mem_reverse.mp member))
    (fun item stays => by
      obtain ⟨rest, last, shape, differs⟩ := kept item stays
      exact ⟨last, rest.reverse, by rw [shape, List.reverse_concat], differs⟩) items.reverse
  have back : (List.reverse ∘ fun item => (f item).reverse) = f :=
    funext fun item => List.reverse_reverse (f item)
  rw [List.rdropWhile, List.reverse_flatMap]
  change (List.dropWhile p (items.reverse.flatMap fun item => (f item).reverse)).reverse = _
  rw [turned, List.reverse_flatMap, back]
  rfl

def isLiteralSpace (spelled : SpelledChar) : Bool :=
  decide spelled.IsLiteralSpace

/-- What trimming leaves. -/
def trimmedChars (spelled : List SpelledChar) : List SpelledChar :=
  (spelled.dropWhile isLiteralSpace).rdropWhile isLiteralSpace

/-- A character that is not literal white space begins and ends with another character. -/
theorem SpelledChar.ends (char : SpelledChar) (other : isLiteralSpace char = false) :
    (∃ first rest, char.text.toList = first :: rest ∧ isWhitespace first = false) ∧
      ∃ rest last, char.text.toList = rest ++ [last] ∧ isWhitespace last = false := by
  rcases char.spells.cases_reference with literal | reference
  · have dense : isWhitespace char.char = false := by
      cases space : isWhitespace char.char with
      | false => rfl
      | true =>
          have dropped : isLiteralSpace char = true := decide_eq_true ⟨literal.1, space⟩
          rw [other] at dropped
          cases dropped
    rw [literal.1]
    exact ⟨⟨char.char, [], by simp, dense⟩, ⟨[], char.char, by simp, dense⟩⟩
  · obtain ⟨entity, shape, -, -⟩ := reference
    rw [shape]
    exact ⟨⟨'&', entity.toList ++ [';'], by simp, by decide⟩,
      ⟨'&' :: entity.toList, ';', by simp, by decide⟩⟩

theorem SpelledChar.space (char : SpelledChar) (literal : isLiteralSpace char = true) :
    ∀ part ∈ char.text.toList, isWhitespace part = true := by
  obtain ⟨shape, space⟩ := of_decide_eq_true literal
  intro part member
  rw [shape, String.toList_singleton, List.mem_singleton] at member
  exact member ▸ space

theorem trim_written (spelled : List SpelledChar) :
    trim (writtenText spelled) = writtenText (trimmedChars spelled) := by
  rw [trim, writtenText, String.toList_ofList,
    dropWhile_flatMap SpelledChar.space (fun char other => (char.ends other).1),
    rdropWhile_flatMap SpelledChar.space (fun char other => (char.ends other).2)]
  rfl

/-- Trimming before decoding loses no character exactly when no white space at the ends is
written literally. -/
theorem unescape_trim_iff (spelled : List SpelledChar) :
    unescape (trim (writtenText spelled)) = plainText spelled ↔ EndsPlain spelled := by
  rw [trim_written, unescape_written]
  have starts : spelled.dropWhile isLiteralSpace = spelled ↔
      ∀ first ∈ spelled.head?, ¬ first.IsLiteralSpace := by
    cases spelled with
    | nil => simp
    | cons first rest => simp [List.dropWhile_eq_self_iff, isLiteralSpace]
  have finishes : spelled.rdropWhile isLiteralSpace = spelled ↔
      ∀ last ∈ spelled.getLast?, ¬ last.IsLiteralSpace := by
    rw [List.rdropWhile_eq_self_iff]
    constructor
    · intro plain last member
      obtain ⟨nonempty, rfl⟩ := List.mem_getLast?_eq_getLast member
      exact fun space => plain nonempty (decide_eq_true space)
    · intro plain nonempty dropped
      exact plain _ (List.getLast_mem_getLast? nonempty) (of_decide_eq_true dropped)
  constructor
  · intro same
    have length : (trimmedChars spelled).length = spelled.length := by
      simpa [plainText] using congrArg String.length same
    have suffix := List.dropWhile_suffix (l := spelled) isLiteralSpace
    have before := List.rdropWhile_prefix isLiteralSpace (spelled.dropWhile isLiteralSpace)
    have shorter := suffix.length_le
    have also := before.length_le
    rw [trimmedChars] at length
    have whole := suffix.eq_of_length (by omega)
    rw [whole] at length before
    exact ⟨starts.mp whole, finishes.mp (before.eq_of_length length)⟩
  · intro plain
    rw [trimmedChars, starts.mpr plain.1, finishes.mpr plain.2]

end Written

end AgentTranscript
