import AgentTranscript.Library.UrlPath
import AgentTranscript.Local.Store

/-!
The directory that a recorded working directory means. Plain paths and file URIs go
through one URL parser, which reads some characters of a plain path as syntax.
-/

set_option autoImplicit false

namespace AgentTranscript

open Percent

/-- The parser of the `url` crate, with the text of its errors. -/
class UrlParser where
  parse : String → Except String Url

/-- A parser that accepts what the URL standard does, with the same parts. -/
def UrlParser.Follows [UrlParser] (hosts : Url.HostParser) : Prop :=
  ∀ text, (UrlParser.parse text).toOption = Url.parse hosts text.toList

section Definitions

/-- `Path::components` over bytes, by which paths are compared. -/
def pathComponents (path : List UInt8) : List (List UInt8) :=
  let parts := path.splitOn 0x2F
  let root := if path.head? = some 0x2F then [[0x2F]] else []
  let dot := if parts.head? = some [0x2E] then [[0x2E]] else []
  root ++ dot ++ parts.filter fun part => part ≠ [] && part ≠ [0x2E]

def urlFilePath [UrlParser] (text : String) : Option (List UInt8) :=
  (UrlParser.parse text).toOption.bind Url.toFilePath

/-- `normalize_cwd`, with the bytes of the path. -/
def normalizeCwdPath [UrlParser] (raw : String) : List UInt8 :=
  let trimmed := trim raw
  if startsWith trimmed "file://" then (urlFilePath trimmed).getD (asBytes trimmed)
  else if startsWith trimmed "/" then
    (urlFilePath ("file://" ++ trimmed)).getD (asBytes trimmed)
  else asBytes trimmed

/-- The directory by which a session is resolved, when it is a text. -/
theorem normalizeCwd_bytes [UrlParser] (machine : Machine)
    (agrees : ∀ text, (machine.filePath text).map asBytes = urlFilePath text) (raw : String) :
    asBytes (normalizeCwd machine raw) = normalizeCwdPath raw := by
  have either : ∀ text other, asBytes ((machine.filePath text).getD other) =
      (urlFilePath text).getD (asBytes other) := by
    intro text other
    rw [← agrees]
    cases machine.filePath text <;> rfl
  unfold normalizeCwd normalizeCwdPath
  dsimp only
  split
  · exact either _ _
  · split
    · exact either _ _
    · rfl

/-- An absolute path as it is recorded plainly, after its first slash. -/
structure PlainRel (rel : String) : Prop where
  names : ∀ part ∈ rel.toList.splitOn '/', part ≠ [] ∧ part ≠ ['.'] ∧ part ≠ ['.', '.']
  percent : '%' ∉ rel.toList
  trimmed : trim ("/" ++ rel) = "/" ++ rel

/-- Characters that the URL parser removes, or reads as syntax, in a path. -/
def urlSyntax : List Char :=
  ['?', '#', '\\', '\t', '\n', '\r']

/-- A path that the URL parser leaves as it is. -/
structure Transparent (rel : String) : Prop where
  chars : ∀ char ∈ rel.toList, char ∉ urlSyntax
  last : ∀ char, rel.toList.getLast? = some char → Url.isC0OrSpace char = false
  drive : ∀ letter : Char, letter.isAlpha = true →
    (rel.toList.splitOn '/').head? ≠ some [letter, '|']

/-- A path written as a URI: its slashes as they are, its other bytes as themselves if they
are path characters, or as escapes. -/
def isPathChar (char : Char) : Bool :=
  char.isAlphanum || char.toNat = 0x27 || char ∈ "-._~!$&()*+,;=:@".toList

inductive WrittenAs : List UInt8 → List Char → Prop where
  | nil : WrittenAs [] []
  | slash {bytes : List UInt8} {text : List Char} (rest : WrittenAs bytes text) :
      WrittenAs (0x2F :: bytes) ('/' :: text)
  | plain {char : Char} {bytes : List UInt8} {text : List Char} (allowed : isPathChar char = true)
      (rest : WrittenAs bytes text) : WrittenAs (UInt8.ofNat char.toNat :: bytes) (char :: text)
  | escaped {high low : Char} {byte : UInt8} {bytes : List UInt8} {text : List Char}
      (escaped : escape high low = some byte) (inside : byte ≠ 0x2F)
      (rest : WrittenAs bytes text) : WrittenAs (byte :: bytes) ('%' :: high :: low :: text)

end Definitions

/-- Path characters are visible ASCII characters without a meaning in the syntax of paths. -/
theorem isPathChar_quiet {char : Char} (allowed : isPathChar char = true) :
    (0x20 < char.toNat ∧ char.toNat ≤ 0x7E) ∧ Url.pathSet char = false ∧
      char ∉ ['/', '\\', '%', '|'] := by
  have ascii : char.toNat < 0x80 := by
    unfold isPathChar at allowed
    rw [Bool.or_eq_true, Bool.or_eq_true] at allowed
    rcases allowed with (word | quote) | listed
    · exact Url.isAlphanum_ascii word
    · rw [of_decide_eq_true quote]
      decide
    · have marks : ∀ mark ∈ "-._~!$&()*+,;=:@".toList, mark.toNat < 0x80 := by simp
      exact marks char (of_decide_eq_true listed)
  revert allowed
  apply @Url.ascii_all char _ ascii
  decide +kernel

section Components

variable {segments : List (List UInt8)}

theorem pathComponents_join (nonempty : segments ≠ [])
    (whole : ∀ segment ∈ segments, 0x2F ∉ segment) :
    pathComponents (segments.flatMap (0x2F :: ·)) =
      [0x2F] :: segments.filter fun part => part ≠ [] && part ≠ [0x2E] := by
  have parts : (segments.flatMap (0x2F :: ·)).splitOn 0x2F = [] :: segments := by
    have joined := Delimited.intercalate_cons 0x2F [] segments
    rw [List.nil_append] at joined
    rw [← joined, List.splitOn_intercalate 0x2F _ (by simp)]
    intro part member
    rcases List.mem_cons.mp member with rfl | inside
    · exact List.not_mem_nil
    · exact whole part inside
  obtain ⟨first, others, rfl⟩ := List.exists_cons_of_ne_nil nonempty
  unfold pathComponents
  rw [parts]
  simp

/-- Decoded segments name what segments name. -/
theorem named_decode (path : List Url.Segment) :
    ((path.map Percent.decode).filter fun part => part ≠ [] && part ≠ [0x2E]) =
      (path.filter Url.isNamed).map Percent.decode := by
  rw [List.filter_map]
  congr 1
  apply List.filter_congr
  intro segment _
  rw [Bool.eq_iff_iff, Url.isNamed_iff]
  simp

theorem pathComponents_absolute (rest : List UInt8) : pathComponents (0x2F :: rest) =
    [0x2F] :: (rest.splitOn 0x2F).filter fun part => part ≠ [] && part ≠ [0x2E] := by
  rw [← Delimited.splitOn_flatMap 0x2F, pathComponents_join (List.splitOn_ne_nil _ _)]
  intro segment member inside
  rw [List.splitOn_eq_splitOnP] at member
  have outside := Url.separates_of_mem_splitOnP member 0x2F inside
  simp at outside

/-- What the segments of a file URL name. -/
theorem filePath_components {path : List Url.Segment} (nonempty : path ≠ [])
    (whole : ∀ segment ∈ path, 0x2F ∉ Percent.decode segment) :
    pathComponents (path.flatMap fun segment => 0x2F :: Percent.decode segment) =
      [0x2F] :: (path.filter Url.isNamed).map Percent.decode := by
  have parts : ∀ bytes ∈ path.map Percent.decode, 0x2F ∉ bytes := by
    intro bytes member
    obtain ⟨segment, among, rfl⟩ := List.mem_map.mp member
    exact whole segment among
  have joined := pathComponents_join (by simpa using nonempty) parts
  rw [List.flatMap_map] at joined
  rw [joined, named_decode]

end Components

section Urls

variable [UrlParser] {hosts : Url.HostParser}

/-- The components of the file that a URL without a host names. -/
theorem urlFilePath_components (follows : UrlParser.Follows hosts) (body : String)
    (whole : ∀ segment ∈ Url.readSegments true (Url.cleanedEnd body.toList),
      0x2F ∉ Percent.decode segment) :
    ∃ path, urlFilePath ("file:///" ++ body) = some path ∧ pathComponents path =
      [0x2F] :: ((Url.closeAll true [] (Url.readSegments true
        (Url.cleanedEnd body.toList))).filter Url.isNamed).map Percent.decode := by
  have parsed : (UrlParser.parse ("file:///" ++ body)).toOption = _ := follows _
  rw [String.toList_append, Url.parse_file] at parsed
  refine ⟨_, ?_, filePath_components
    (Url.closeAll_ne_nil (Url.readSegments_ne_nil true (Url.cleanedEnd body.toList))) ?_⟩
  · unfold urlFilePath
    rw [parsed]
    rfl
  · refine Url.closeAll_all (fun member => by cases member) ?_ (fun _ member => by cases member)
      fun segment member _ _ => whole segment member
    intro segment kept member
    rcases Url.mem_decode_normalizeDrive member with colon | inside
    · exact absurd colon (by decide)
    · exact kept inside

end Urls

section Plain

variable {rel : String}

theorem PlainRel.part (plain : PlainRel rel) {part : List Char}
    (member : part ∈ rel.toList.splitOn '/') :
    '%' ∉ part ∧ '/' ∉ part ∧ utf8 part ≠ [] ∧ utf8 part ≠ [0x2E] ∧ utf8 part ≠ [0x2E, 0x2E] := by
  obtain ⟨named, dot, dots⟩ := plain.names part member
  have percent : '%' ∉ part := by
    rw [List.splitOn_eq_splitOnP] at member
    exact Url.not_mem_splitOnP plain.percent member
  refine ⟨percent, not_mem_of_mem_splitOn member, ?_⟩
  rw [← decode_plain percent]
  refine ⟨mt Url.decode_eq_nil.mp named, ?_, ?_⟩
  · intro same
    rcases Url.decode_eq_dot same with ⟨rest, rfl, last⟩ | ⟨digit, rest, -, rfl, -⟩
    · exact dot (by rw [Url.decode_eq_nil.mp last])
    · exact percent List.mem_cons_self
  · intro same
    rcases Url.decode_eq_dot same with ⟨rest, rfl, next⟩ | ⟨digit, rest, -, rfl, -⟩
    · rcases Url.decode_eq_dot next with ⟨rest, rfl, last⟩ | ⟨digit, rest, -, rfl, -⟩
      · exact dots (by rw [Url.decode_eq_nil.mp last])
      · exact percent (by simp)
    · exact percent List.mem_cons_self

/-- The components of a plain path are its names. -/
theorem PlainRel.components (plain : PlainRel rel) : pathComponents (asBytes ("/" ++ rel)) =
    [0x2F] :: (rel.toList.splitOn '/').map utf8 := by
  have bytes : asBytes ("/" ++ rel) =
      ((rel.toList.splitOn '/').map utf8).flatMap (0x2F :: ·) := by
    have slash : ∀ part, utf8 ('/' :: part) = 0x2F :: utf8 part := fun _ => rfl
    unfold asBytes
    rw [String.toList_append]
    show utf8 ('/' :: rel.toList) = _
    rw [← Delimited.splitOn_flatMap '/', utf8, List.flatMap_assoc, List.flatMap_map]
    exact congrArg (List.flatMap · _) (funext slash)
  rw [bytes, pathComponents_join (by simp [List.splitOn_ne_nil])]
  · congr 1
    apply List.filter_eq_self.mpr
    intro part member
    obtain ⟨chars, among, rfl⟩ := List.mem_map.mp member
    obtain ⟨-, -, named, dot, -⟩ := plain.part among
    simp [named, dot]
  · intro part member
    obtain ⟨chars, among, rfl⟩ := List.mem_map.mp member
    exact slash_not_mem_utf8 (plain.part among).2.1

/-- The URL of a plain path names its decoded segments. -/
theorem PlainRel.url [UrlParser] {hosts : Url.HostParser} (plain : PlainRel rel)
    (follows : UrlParser.Follows hosts) :
    pathComponents (normalizeCwdPath ("/" ++ rel)) =
      [0x2F] :: ((Url.closeAll true [] (Url.readSegments true
        (Url.cleanedEnd rel.toList))).filter Url.isNamed).map Percent.decode := by
  have percent : '%' ∉ (Url.cleanedEnd rel.toList).takeWhile fun char => !Url.isCut char := by
    intro member
    exact plain.percent ((Url.cleanedEnd_sublist _).mem ((List.takeWhile_sublist _).mem member))
  have whole : ∀ segment ∈ Url.readSegments true (Url.cleanedEnd rel.toList),
      0x2F ∉ Percent.decode segment := by
    intro segment member
    obtain ⟨part, among, rfl⟩ := List.mem_map.mp member
    rw [decode_encode _ (Url.not_mem_splitOnP percent among)]
    apply slash_not_mem_utf8
    intro inside
    cases Url.separates_of_mem_splitOnP among '/' inside
  obtain ⟨path, named, components⟩ := urlFilePath_components follows rel whole
  have text : "file://" ++ ("/" ++ rel) = "file:///" ++ rel := by
    rw [← String.append_assoc]
    rfl
  have other : ¬ startsWith ("/" ++ rel) "file://" = true := by
    intro uri
    obtain ⟨rest, same⟩ := startsWith_iff.mp uri
    have heads := congrArg (fun text : String => text.toList.head?) same
    simp at heads
  have absolute : startsWith ("/" ++ rel) "/" = true := startsWith_append "/" rel
  unfold normalizeCwdPath
  rw [plain.trimmed]
  dsimp only
  rw [if_neg other, if_pos absolute, text, named]
  exact components

/-- What the URL parser keeps of a path. -/
def urlChars (rel : String) : List Char :=
  Url.keptChars true (Url.cleanedEnd rel.toList)

def nameChars (rel : String) : List Char :=
  rel.toList.filter fun char => char ≠ '/'

theorem length_names (rel : String) :
    ((rel.toList.splitOn '/').map utf8).flatten.length = (utf8 (nameChars rel)).length := by
  have flat := Url.flatten_splitOnP (fun char => char == '/') rel.toList
  rw [← List.splitOn_eq_splitOnP] at flat
  have names : nameChars rel = (rel.toList.splitOn '/').flatten := by
    rw [flat]
    exact List.filter_congr fun char _ => by simp [Bool.beq_eq_decide_eq]
  rw [names, Url.length_utf8_flatten, List.length_flatten, List.map_map]
  rfl

theorem keptChars_sublist (chars : List Char) :
    (Url.keptChars true (Url.cleanedEnd chars)).Sublist (chars.filter fun char => char ≠ '/') := by
  have among : ((Url.cleanedEnd chars).takeWhile fun char => !Url.isCut char).Sublist chars :=
    (List.takeWhile_sublist _).trans (Url.cleanedEnd_sublist chars)
  refine (among.filter _).trans (List.monotone_filter_right _ ?_)
  intro char inside
  simp only [Url.isSlash, Bool.not_eq_true', Bool.or_eq_false_iff,
    decide_eq_false_iff_not] at inside
  simpa using inside.1

/-- What the parser reads as syntax or removes is missing in the path. -/
theorem urlChars_short (lossy : ¬ ((∀ char ∈ rel.toList, char ∉ urlSyntax) ∧
      ∀ char, rel.toList.getLast? = some char → Url.isC0OrSpace char = false)) :
    (urlChars rel).length < (nameChars rel).length := by
  have among : (urlChars rel).Sublist (nameChars rel) := keptChars_sublist rel.toList
  rw [not_and_or] at lossy
  rcases lossy with removed | stripped
  · push Not at removed
    obtain ⟨char, member, syntactic⟩ := removed
    refine lt_of_le_of_ne among.length_le fun same => ?_
    have named : char ∈ nameChars rel := by
      refine List.mem_filter.mpr ⟨member, ?_⟩
      have apart : '/' ∉ urlSyntax := by decide
      simpa using fun slash : char = '/' => apart (slash ▸ syntactic)
    rw [← among.eq_of_length same] at named
    obtain ⟨taken, straight⟩ := List.mem_filter.mp named
    have uncut := List.mem_takeWhile_imp taken
    have seen := (List.mem_filter.mp ((List.takeWhile_sublist _).mem taken)).2
    simp only [urlSyntax, List.mem_cons, List.not_mem_nil, or_false] at syntactic
    rcases syntactic with rfl | rfl | rfl | rfl | rfl | rfl
    · cases uncut
    · cases uncut
    · cases straight
    · cases seen
    · cases seen
    · cases seen
  · push Not at stripped
    obtain ⟨last, final, invisible⟩ := stripped
    obtain ⟨front, shape⟩ := List.getLast?_eq_some_iff.mp final
    have visible : last ≠ '/' := by
      intro slash
      rw [slash] at invisible
      exact invisible rfl
    have cleaned : Url.cleanedEnd (front ++ [last]) = Url.cleanedEnd front := by
      unfold Url.cleanedEnd
      rw [List.rdropWhile_concat_pos _ _ _ (by simpa using invisible)]
    have fewer := (keptChars_sublist front).length_le
    unfold urlChars nameChars
    rw [shape, cleaned, List.filter_append, List.length_append]
    have one : ([last].filter fun char => char ≠ '/').length = 1 := by simp [visible]
    omega

/-- What a plain path names when the parser removes and splits nothing. -/
theorem PlainRel.components_quiet (plain : PlainRel rel)
    (quiet : (∀ char ∈ rel.toList, char ∉ urlSyntax) ∧
      ∀ char, rel.toList.getLast? = some char → Url.isC0OrSpace char = false)
    {first : List Char} {others : List (List Char)}
    (parts : rel.toList.splitOn '/' = first :: others) :
    ((Url.closeAll true [] (Url.readSegments true (Url.cleanedEnd rel.toList))).filter
        Url.isNamed).map Percent.decode =
      Percent.decode (Url.normalizeDrive (Percent.encode Url.pathSet first)) :: others.map utf8 := by
  have whole : ∀ char ∈ rel.toList, Url.isCut char = false ∧ Url.isTabOrNewline char = false := by
    intro char member
    have plain := quiet.1 char member
    simp only [urlSyntax, List.mem_cons, List.not_mem_nil, or_false, not_or] at plain
    simp [Url.isCut, Url.isTabOrNewline, plain]
  have cleaned : Url.cleanedEnd rel.toList = rel.toList := by
    have ends : rel.toList.rdropWhile Url.isC0OrSpace = rel.toList := by
      rw [List.rdropWhile_eq_self_iff]
      intro nonempty
      rw [quiet.2 _ (List.getLast?_eq_some_getLast nonempty)]
      exact Bool.false_ne_true
    rw [Url.cleanedEnd, ends, List.filter_eq_self]
    intro char member
    rw [(whole char member).2]
    rfl
  have straight : true = true → '\\' ∉ rel.toList := fun _ member => quiet.1 _ member (by decide)
  rw [cleaned, Url.readSegments_eq (fun char member => (whole char member).1) straight, parts,
    List.map_cons]
  have decoded : ∀ part ∈ first :: others,
      Percent.decode (Percent.encode Url.pathSet part) = utf8 part :=
    fun part member => decode_encode _ (plain.part (parts ▸ member)).1
  have names : ∀ part ∈ first :: others, Url.isNamed (Percent.encode Url.pathSet part) = true := by
    intro part member
    obtain ⟨-, -, named, dot, -⟩ := plain.part (parts ▸ member)
    exact Url.isNamed_iff.mpr (by rw [decoded part member]; exact ⟨named, dot⟩)
  rw [Url.closeAll_first, List.filter_eq_self.mpr, List.map_cons, List.map_map]
  · congr 1
    apply List.map_congr_left
    intro part member
    exact decoded part (List.mem_cons_of_mem first member)
  · intro segment member
    rcases List.mem_cons.mp member with rfl | rest
    · rw [Url.isNamed_normalizeDrive]
      exact names first List.mem_cons_self
    · obtain ⟨part, among, rfl⟩ := List.mem_map.mp rest
      exact names part (List.mem_cons_of_mem first among)
  · intro segment member
    rw [← List.map_cons] at member
    obtain ⟨part, among, rfl⟩ := List.mem_map.mp member
    obtain ⟨-, -, -, dot, dots⟩ := plain.part (parts ▸ among)
    rw [Bool.eq_false_iff, Bool.eq_false_iff, ne_eq, ne_eq, Url.isSingleDot_iff,
      Url.isDoubleDot_iff, decoded part among]
    exact ⟨dot, dots⟩

/-- A first name that is a drive letter with a bar does not survive. -/
theorem drive_iff {first : List Char} (percent : '%' ∉ first) :
    Percent.decode (Url.normalizeDrive (Percent.encode Url.pathSet first)) = utf8 first ↔
      ∀ letter : Char, letter.isAlpha = true → first ≠ [letter, '|'] := by
  constructor
  · rintro same letter alphabetic rfl
    have allowed : isPathChar letter = true := by
      simp [isPathChar, Char.isAlphanum, alphabetic]
    obtain ⟨-, unchanged, -⟩ := isPathChar_quiet allowed
    have encoded : Percent.encode Url.pathSet [letter, '|'] = [letter, '|'] := by
      have bar : encodeChar Url.pathSet '|' = ['|'] := rfl
      have kept : encodeChar Url.pathSet letter = [letter] := if_neg (by simp [unchanged])
      simp [Percent.encode, kept, bar]
    have drive : Url.normalizeDrive [letter, '|'] = [letter, ':'] := by
      simp [Url.normalizeDrive, Url.isDriveLetter, alphabetic]
    rw [encoded, drive, Url.decode_drive alphabetic, utf8, List.flatMap_cons,
      List.append_cancel_left_eq] at same
    exact absurd same (by decide)
  · intro plain
    rw [← decode_encode Url.pathSet percent]
    congr 1
    unfold Url.normalizeDrive
    split
    · rename_i letter mark shape
      split
      · rename_i drive
        simp only [Url.isDriveLetter, Bool.and_eq_true, Bool.or_eq_true, decide_eq_true_eq] at drive
        obtain ⟨alphabetic, rfl | rfl⟩ := drive
        · exact shape.symm
        · have absent : '%' ∉ Percent.encode Url.pathSet first := by
            rw [shape]
            intro member
            rcases List.mem_cons.mp member with rfl | rest
            · exact absurd alphabetic (by decide)
            · exact absurd rest (by decide)
          rw [encode_eq_self absent] at shape
          exact absurd shape (plain letter alphabetic)
      · exact shape.symm
    · rfl

/-- A plain path is its own directory exactly when the URL parser leaves it as it is. -/
theorem normalizeCwdPath_plain_iff [UrlParser] {hosts : Url.HostParser} (plain : PlainRel rel)
    (follows : UrlParser.Follows hosts) :
    pathComponents (normalizeCwdPath ("/" ++ rel)) = pathComponents (asBytes ("/" ++ rel)) ↔
      Transparent rel := by
  obtain ⟨first, others, parts⟩ := List.exists_cons_of_ne_nil (List.splitOn_ne_nil '/' rel.toList)
  rw [plain.url follows, plain.components]
  by_cases quiet : (∀ char ∈ rel.toList, char ∉ urlSyntax) ∧
      ∀ char, rel.toList.getLast? = some char → Url.isC0OrSpace char = false
  · have percent : '%' ∉ first := (plain.part (parts ▸ List.mem_cons_self)).1
    rw [plain.components_quiet quiet parts, parts, List.map_cons, List.cons_inj_right,
      List.cons_eq_cons, and_iff_left rfl, drive_iff percent]
    constructor
    · intro drive
      refine ⟨quiet.1, quiet.2, ?_⟩
      intro letter alphabetic
      rw [parts, List.head?_cons, ne_eq, Option.some_inj]
      exact drive letter alphabetic
    · intro transparent letter alphabetic same
      exact transparent.drive letter alphabetic (by rw [parts, same]; rfl)
  · constructor
    · intro same
      have percent : '%' ∉ Url.cleanedEnd rel.toList :=
        fun member => plain.percent ((Url.cleanedEnd_sublist _).mem member)
      have kept := @Url.length_named_le true true _ percent
      have fewer := length_utf8_lt (keptChars_sublist rel.toList) (urlChars_short quiet)
      rw [(List.cons_inj_right _).mp same, length_names] at kept
      exact absurd (lt_of_le_of_lt kept fewer) (lt_irrefl _)
    · intro transparent
      exact absurd ⟨transparent.chars, transparent.last⟩ quiet

end Plain

section Uri

variable {bytes : List UInt8} {text : List Char}

theorem hexValue_isPathChar {digit : Char} {value : Nat} (hex : hexValue digit = some value) :
    isPathChar digit = true := by
  have word : digit.isAlphanum = true := by
    simp only [Char.isAlphanum, Char.isAlpha, Char.isUpper, Char.isLower, Char.isDigit,
      Bool.or_eq_true, Bool.and_eq_true, decide_eq_true_eq, UInt32.le_iff_toNat_le, ge_iff_le]
    have upper : 'A'.val.toNat = 65 ∧ 'Z'.val.toNat = 90 := ⟨rfl, rfl⟩
    have lower : 'a'.val.toNat = 97 ∧ 'z'.val.toNat = 122 := ⟨rfl, rfl⟩
    have digits : '0'.val.toNat = 48 ∧ '9'.val.toNat = 57 := ⟨rfl, rfl⟩
    have code : digit.toNat = digit.val.toNat := rfl
    unfold hexValue at hex
    dsimp only at hex
    split_ifs at hex <;> omega
  simp [isPathChar, word]

theorem escape_isPathChar {high low : Char} {byte : UInt8} (escaped : escape high low = some byte) :
    isPathChar high = true ∧ isPathChar low = true := by
  obtain ⟨first, hex, again⟩ := Option.bind_eq_some_iff.mp escaped
  obtain ⟨second, also, -⟩ := Option.map_eq_some_iff.mp again
  exact ⟨hexValue_isPathChar hex, hexValue_isPathChar also⟩

theorem WrittenAs.chars (written : WrittenAs bytes text) :
    ∀ char ∈ text, isPathChar char = true ∨ char = '/' ∨ char = '%' := by
  induction written with
  | nil => simp
  | slash rest ih => simpa using ih
  | plain allowed rest ih => simpa [allowed] using ih
  | escaped escaped inside rest ih =>
      obtain ⟨first, second⟩ := escape_isPathChar escaped
      simpa [first, second] using ih

/-- A written path is read as it is. -/
theorem WrittenAs.quiet (written : WrittenAs bytes text) :
    ∀ char ∈ text, (0x20 < char.toNat ∧ char.toNat ≤ 0x7E) ∧ Url.pathSet char = false ∧
      char ∉ ['\\', '|'] := by
  intro char member
  rcases written.chars char member with allowed | rfl | rfl
  · obtain ⟨visible, kept, plain⟩ := isPathChar_quiet allowed
    simp only [List.mem_cons, List.not_mem_nil, or_false, not_or] at plain
    exact ⟨visible, kept, by simp [plain]⟩
  · decide
  · decide

theorem decode_modifyHead {front : List Char} {byte : UInt8}
    (read : ∀ rest, Percent.decode (front ++ rest) = byte :: Percent.decode rest)
    (parts : List (List Char)) : (parts.modifyHead (front ++ ·)).map Percent.decode =
      (parts.map Percent.decode).modifyHead (byte :: ·) := by
  cases parts with
  | nil => rfl
  | cons first others => rw [List.modifyHead_cons, List.map_cons, read, List.map_cons]; rfl

theorem isPathChar_inside {char : Char} (allowed : isPathChar char = true) :
    UInt8.ofNat char.toNat ≠ 0x2F := by
  intro slash
  obtain ⟨visible, -, plain⟩ := isPathChar_quiet allowed
  have value := congrArg UInt8.toNat slash
  rw [UInt8.toNat_ofNat'] at value
  have code : char.toNat = '/'.toNat := by
    have whole : char.toNat % 2 ^ 8 = 47 := value
    have point : '/'.toNat = 47 := rfl
    omega
  exact plain (List.mem_cons.mpr (.inl (Char.toNat_inj.mp code)))

/-- The parts of a written path Percent.decode to the parts of the path. -/
theorem WrittenAs.parts (written : WrittenAs bytes text) :
    (text.splitOn '/').map Percent.decode = bytes.splitOn 0x2F := by
  induction written with
  | nil => rfl
  | slash rest ih =>
      rw [List.splitOn_cons_eq_if_modifyHead, List.splitOn_cons_eq_if_modifyHead, if_pos (by simp),
        if_pos (by simp), List.map_cons, ih]
      rfl
  | @plain char bytes text allowed rest ih =>
      obtain ⟨visible, -, plain⟩ := isPathChar_quiet allowed
      simp only [List.mem_cons, List.not_mem_nil, or_false, not_or] at plain
      have read : ∀ rest, Percent.decode ([char] ++ rest) =
          UInt8.ofNat char.toNat :: Percent.decode rest := by
        intro rest
        rw [List.cons_append, decode_char plain.2.2.1, utf8_ascii (by omega)]
        rfl
      have inside := isPathChar_inside allowed
      rw [List.splitOn_cons_eq_if_modifyHead, List.splitOn_cons_eq_if_modifyHead,
        if_neg (by simpa using plain.1), if_neg (by simpa using inside), ← ih]
      exact decode_modifyHead read _
  | @escaped high low byte bytes text escaped inside rest ih =>
      obtain ⟨first, second⟩ := escape_isPathChar escaped
      have slashes : ∀ {digit : Char}, isPathChar digit = true → digit ≠ '/' := by
        rintro digit allowed rfl
        exact absurd allowed (by decide)
      have read : ∀ rest, Percent.decode (['%', high, low] ++ rest) = byte :: Percent.decode rest :=
        fun rest => decode_escape escaped
      rw [List.splitOn_cons_eq_if_modifyHead, List.splitOn_cons_eq_if_modifyHead,
        List.splitOn_cons_eq_if_modifyHead, if_neg (by simp),
        if_neg (by simpa using slashes first), if_neg (by simpa using slashes second),
        List.splitOn_cons_eq_if_modifyHead, if_neg (by simpa using inside), ← ih,
        ← decode_modifyHead read]
      cases text.splitOn '/' <;> rfl

theorem mem_of_mem_splitOn {chars part : List Char} {separator char : Char}
    (member : part ∈ chars.splitOn separator) (inside : char ∈ part) : char ∈ chars := by
  rw [List.splitOn_eq_splitOnP] at member
  by_contra absent
  exact Url.not_mem_splitOnP absent member inside

/-- The URI of an absolute path starts with three slashes. -/
theorem WrittenAs.absolute {rest : List UInt8} (written : WrittenAs (0x2F :: rest) text) :
    ∃ body, text = '/' :: body ∧ WrittenAs rest body := by
  generalize whole : 0x2F :: rest = path at written
  cases written with
  | nil => cases whole
  | slash after =>
      obtain ⟨-, rfl⟩ := List.cons_eq_cons.mp whole
      exact ⟨_, rfl, after⟩
  | plain allowed after =>
      exact absurd (List.cons_eq_cons.mp whole).1.symm (isPathChar_inside allowed)
  | escaped escaped inside after => exact absurd (List.cons_eq_cons.mp whole).1.symm inside

theorem WrittenAs.cleaned (written : WrittenAs bytes text) : Url.cleanedEnd text = text := by
  have ends : text.rdropWhile Url.isC0OrSpace = text := by
    rw [List.rdropWhile_eq_self_iff]
    intro nonempty
    have visible := (written.quiet _ (List.getLast_mem nonempty)).1.1
    simp only [Url.isC0OrSpace, decide_eq_true_eq]
    omega
  rw [Url.cleanedEnd, ends, List.filter_eq_self]
  intro char member
  have visible := (written.quiet char member).1.1
  unfold Url.isTabOrNewline
  simp only [Bool.not_eq_true', Bool.or_eq_false_iff, decide_eq_false_iff_not]
  refine ⟨⟨?_, ?_⟩, ?_⟩ <;> rintro rfl <;> exact absurd visible (by decide)

theorem WrittenAs.read (written : WrittenAs bytes text) :
    Url.readSegments true (Url.cleanedEnd text) = text.splitOn '/' := by
  have encoded : ∀ part ∈ text.splitOn '/', Percent.encode Url.pathSet part = part := by
    intro part member
    apply encode_plain
    intro char inside
    exact (written.quiet char (mem_of_mem_splitOn member inside)).2.1
  have cut : ∀ char ∈ text, Url.isCut char = false := by
    intro char member
    have kept := (written.quiet char member).2.1
    by_contra syntactic
    rw [Bool.not_eq_false] at syntactic
    simp only [Url.isCut, Bool.or_eq_true, decide_eq_true_eq] at syntactic
    rcases syntactic with rfl | rfl <;> cases kept
  have straight : true = true → '\\' ∉ text := by
    intro _ member
    exact (written.quiet _ member).2.2 (by simp)
  rw [written.cleaned, Url.readSegments_eq cut straight]
  exact (List.map_congr_left encoded).trans (List.map_id _)

theorem WrittenAs.drive (written : WrittenAs bytes text) :
    ∀ part ∈ text.splitOn '/', Url.normalizeDrive part = part := by
  intro part member
  have bar : '|' ∉ part :=
    fun inside => (written.quiet _ (mem_of_mem_splitOn member inside)).2.2 (by simp)
  unfold Url.normalizeDrive
  split
  · split
    · rename_i drive
      simp only [Url.isDriveLetter, Bool.and_eq_true, Bool.or_eq_true, decide_eq_true_eq] at drive
      obtain ⟨-, rfl | rfl⟩ := drive
      · rfl
      · simp at bar
    · rfl
  · rfl

/-- The file that the URI of a path names. -/
theorem WrittenAs.url [UrlParser] {hosts : Url.HostParser} {rest : List UInt8}
    (written : WrittenAs rest text) (follows : UrlParser.Follows hosts) :
    pathComponents (normalizeCwdPath ("file:///" ++ String.ofList text)) =
      [0x2F] :: ((Url.closeAll true [] (text.splitOn '/')).filter
        Url.isNamed).map Percent.decode := by
  have whole : ∀ segment ∈ Url.readSegments true (Url.cleanedEnd (String.ofList text).toList),
      0x2F ∉ Percent.decode segment := by
    rw [String.toList_ofList, written.read]
    intro segment member inside
    have part : Percent.decode segment ∈ rest.splitOn 0x2F := by
      rw [← written.parts]
      exact List.mem_map_of_mem member
    rw [List.splitOn_eq_splitOnP] at part
    have outside := Url.separates_of_mem_splitOnP part 0x2F inside
    simp at outside
  obtain ⟨path, named, components⟩ := urlFilePath_components follows (String.ofList text) whole
  have trimmed : trim ("file:///" ++ String.ofList text) = "file:///" ++ String.ofList text := by
    apply trim_eq_self
    intro char member
    rw [String.toList_append] at member
    have visible : 0x20 < char.toNat ∧ char.toNat ≤ 0x7E := by
      rcases List.mem_append.mp member with front | inside
      · have scheme : ∀ char ∈ "file:///".toList, 0x20 < char.toNat ∧ char.toNat ≤ 0x7E := by
          simp
        exact scheme char front
      · rw [String.toList_ofList] at inside
        exact (written.quiet char inside).1
    simp [isWhitespace]
    omega
  have uri : startsWith ("file:///" ++ String.ofList text) "file://" = true := by
    have text : "file:///" ++ String.ofList text = "file://" ++ ("/" ++ String.ofList text) := by
      rw [← String.append_assoc]
      rfl
    rw [text]
    exact startsWith_append _ _
  unfold normalizeCwdPath
  rw [trimmed]
  dsimp only
  rw [if_pos uri, named]
  rw [String.toList_ofList, written.read] at components
  exact components

/-- A path is what its URI names exactly when it does not go up. -/
theorem WrittenAs.url_iff [UrlParser] {hosts : Url.HostParser} {rest : List UInt8}
    (written : WrittenAs rest text) (follows : UrlParser.Follows hosts) :
    pathComponents (normalizeCwdPath ("file:///" ++ String.ofList text)) =
        pathComponents (0x2F :: rest) ↔ [0x2E, 0x2E] ∉ rest.splitOn 0x2F := by
  rw [written.url follows, pathComponents_absolute, List.cons_inj_right, ← written.parts,
    named_decode]
  constructor
  · intro same member
    obtain ⟨segment, among, dots⟩ := List.mem_map.mp member
    have named : [0x2E, 0x2E] ∈ ((text.splitOn '/').filter Url.isNamed).map Percent.decode := by
      rw [← dots]
      refine List.mem_map_of_mem (List.mem_filter.mpr ⟨among, Url.isNamed_iff.mpr ?_⟩)
      rw [dots]
      decide
    rw [← same] at named
    obtain ⟨other, kept, again⟩ := List.mem_map.mp named
    have single : Url.isDoubleDot other = false := by
      have drive : ∀ segment, Url.isDoubleDot segment = false →
          Url.isDoubleDot (Url.normalizeDrive segment) = false := by
        intro segment plain
        rw [Url.isDoubleDot_normalizeDrive, plain]
      have empty : Url.isDoubleDot [] = false := rfl
      exact Url.closeAll_all empty drive (fun _ none => by cases none) (fun _ _ _ plain => plain)
        other (List.mem_filter.mp kept).1
    rw [Url.isDoubleDot_iff.mpr again] at single
    cases single
  · intro absent
    have plain : ∀ segment ∈ text.splitOn '/', Url.isDoubleDot segment = false := by
      intro segment member
      rw [Bool.eq_false_iff, ne_eq, Url.isDoubleDot_iff]
      intro dots
      exact absent (dots ▸ List.mem_map_of_mem member)
    rw [Url.closeAll_names plain written.drive, List.nil_append]

end Uri

section Own

/-- A recorded plain path is its own directory exactly when the URL parser leaves it as it is,
and a recorded URI names its path exactly when the path does not go up. -/
theorem normalizeCwd_own_iff [UrlParser] {hosts : Url.HostParser}
    (follows : UrlParser.Follows hosts) :
    (∀ rel, PlainRel rel → (pathComponents (normalizeCwdPath ("/" ++ rel)) =
      pathComponents (asBytes ("/" ++ rel)) ↔ Transparent rel)) ∧
    ∀ path text, path.head? = some 0x2F → WrittenAs path text →
      (pathComponents (normalizeCwdPath ("file://" ++ String.ofList text)) = pathComponents path ↔
        [0x2E, 0x2E] ∉ path.splitOn 0x2F) := by
  refine ⟨fun rel plain => normalizeCwdPath_plain_iff plain follows, ?_⟩
  intro path text absolute written
  obtain ⟨rest, rfl⟩ := List.head?_eq_some_iff.mp absolute
  obtain ⟨body, rfl, after⟩ := written.absolute
  have uri : "file://" ++ String.ofList ('/' :: body) = "file:///" ++ String.ofList body := by
    apply String.toList_inj.mp
    simp
  have parts : (0x2F :: rest : List UInt8).splitOn 0x2F = [] :: rest.splitOn 0x2F := by
    rw [List.splitOn_cons_eq_if_modifyHead, if_pos (by simp)]
  rw [uri, after.url_iff follows, parts, List.mem_cons, not_or, and_iff_right (by simp)]

/-- The standard's parser, for hosts of ASCII letters. -/
@[reducible] def standardParser : UrlParser where
  parse text :=
    match Url.parse (fun _ host => some (host.map Char.toLower)) text.toList with
    | some url => .ok url
    | none => .error "relative URL without a base"

theorem standardParser_follows :
    standardParser.Follows fun _ host => some (host.map Char.toLower) := by
  intro text
  show Except.toOption (match Url.parse _ text.toList with | some url => _ | none => _) = _
  split
  · rename_i parsed
    exact parsed.symm
  · rename_i failed
    exact failed.symm

/-- A plain directory, and one with a space as a URI. -/
theorem normalizeCwd_own_run :
    pathComponents (@normalizeCwdPath standardParser "/srv/app") =
        pathComponents (asBytes "/srv/app") ∧
      pathComponents (@normalizeCwdPath standardParser "file:///a%20b") =
        pathComponents (asBytes "/a b") := by
  have plain : PlainRel "srv/app" := ⟨by decide +kernel, by decide +kernel, by decide +kernel⟩
  have quiet : Transparent "srv/app" := by
    refine ⟨by simp [urlSyntax], ?_, ?_⟩
    · intro char same
      have last : "srv/app".toList.getLast? = some 'p' := by decide +kernel
      rw [last] at same
      cases same
      rfl
    · intro letter _ same
      have first : ("srv/app".toList.splitOn '/').head? = some ['s', 'r', 'v'] := by decide +kernel
      rw [first] at same
      cases same
  have written : WrittenAs (asBytes "/a b") "/a%20b".toList := by
    have bytes : asBytes "/a b" = [0x2F, 0x61, 0x20, 0x62] := by decide +kernel
    have text : "/a%20b".toList = ['/', 'a', '%', '2', '0', 'b'] := by simp
    rw [bytes, text]
    exact .slash (@WrittenAs.plain 'a' _ _ (by decide) (.escaped (by decide) (by decide)
      (@WrittenAs.plain 'b' _ _ (by decide) .nil)))
  obtain ⟨own, uris⟩ := @normalizeCwd_own_iff standardParser _ standardParser_follows
  refine ⟨(own "srv/app" plain).mpr quiet, ?_⟩
  exact (uris (asBytes "/a b") "/a%20b".toList (by decide +kernel) written).mpr
    (by decide +kernel)

/-- A directory with a number sign is cut there. -/
theorem numberSign_cut : PlainRel "srv/c#" ∧
    @normalizeCwdPath standardParser "/srv/c#" = asBytes "/srv/c" ∧
    pathComponents (asBytes "/srv/c") ≠ pathComponents (asBytes "/srv/c#") := by
  have plain : PlainRel "srv/c#" := ⟨by decide +kernel, by decide +kernel, by decide +kernel⟩
  exact ⟨plain, by decide +kernel, by decide +kernel⟩

end Own

end AgentTranscript
