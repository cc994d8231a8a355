import Mathlib
import AgentTranscript.Library.Delimited
import AgentTranscript.Library.Percent

/-! `str` and `Path` operations of the Rust standard library, on Unix. -/

set_option autoImplicit false

namespace AgentTranscript

/-- `str::as_bytes`. -/
def asBytes (text : String) : List UInt8 :=
  Percent.utf8 text.toList

def isAsciiHexdigit (char : Char) : Bool :=
  ('0' ≤ char && char ≤ '9') || ('a' ≤ char && char ≤ 'f') || ('A' ≤ char && char ≤ 'F')

def startsWith (text initial : String) : Bool :=
  initial.toList.isPrefixOf text.toList

def endsWith (text final : String) : Bool :=
  final.toList.isSuffixOf text.toList

def stripPrefix (text initial : String) : Option String :=
  (initial.toList.isPrefixOf? text.toList).map String.ofList

def stripSuffix (text final : String) : Option String :=
  (final.toList.isSuffixOf? text.toList).map String.ofList

def splitChar (text : String) (separator : Char) : List String :=
  (text.toList.splitOn separator).map String.ofList

/-- `split_once`: at the first separator. -/
def splitOnce (text : String) (separator : Char) : Option (String × String) :=
  match text.toList.splitOn separator with
  | first :: second :: rest =>
      some (String.ofList first, String.ofList ([separator].intercalate (second :: rest)))
  | _ => none

/-- `rsplit_once`: at the last separator. -/
def rsplitOnce (text : String) (separator : Char) : Option (String × String) :=
  match (text.toList.splitOn separator).reverse with
  | last :: second :: rest =>
      some (String.ofList ([separator].intercalate (second :: rest).reverse), String.ofList last)
  | _ => none

/-- `rsplit(separator).next()`. -/
def lastPart (text : String) (separator : Char) : String :=
  (splitChar text separator).getLastD text

/-- The Unicode property `White_Space`, which `char::is_whitespace` tests. -/
def isWhitespace (char : Char) : Bool :=
  let code := char.toNat
  (0x9 ≤ code && code ≤ 0xD) || code = 0x20 || code = 0x85 || code = 0xA0 || code = 0x1680 ||
    (0x2000 ≤ code && code ≤ 0x200A) || code = 0x2028 || code = 0x2029 || code = 0x202F ||
    code = 0x205F || code = 0x3000

def trim (text : String) : String :=
  String.ofList ((text.toList.dropWhile isWhitespace).rdropWhile isWhitespace)

/-- The components of a path: the root, a leading `.`, and the names between
separators except `.`. -/
def components (path : String) : List String :=
  let parts := splitChar path '/'
  let root := if startsWith path "/" then ["/"] else []
  let dot := if parts.head? = some "." then ["."] else []
  root ++ dot ++ parts.filter fun part => part ≠ "" && part ≠ "."

/-- `Path::starts_with`, which compares by component. -/
def pathStartsWith (path base : String) : Bool :=
  (components base).isPrefixOf (components path)

/-- `PathBuf::push` of a path that is not absolute. -/
def pushPath (path part : String) : String :=
  if path.isEmpty || endsWith path "/" then path ++ part else path ++ "/" ++ part

def joinRel (root rel : String) : String :=
  pushPath root ((splitChar rel '/').foldl pushPath "")

example : components "/home/./me//x/" = ["/", "home", "me", "x"] := by decide
example : joinRel "/home/me" "a/b.jsonl" = "/home/me/a/b.jsonl" := by decide
example : rsplitOnce "a/b/c" '/' = some ("a/b", "c") := by decide

theorem startsWith_iff {text initial : String} :
    startsWith text initial = true ↔ ∃ rest, text = initial ++ rest := by
  rw [startsWith, List.isPrefixOf_iff_prefix]
  constructor
  · intro given
    obtain ⟨rest, shape⟩ := given
    exact ⟨String.ofList rest, String.toList_inj.mp (by simp [← shape])⟩
  · intro given
    obtain ⟨rest, rfl⟩ := given
    exact ⟨rest.toList, by simp⟩

theorem stripPrefix_eq_some_iff {text initial rest : String} :
    stripPrefix text initial = some rest ↔ text = initial ++ rest := by
  simp only [stripPrefix, Option.map_eq_some_iff, List.isPrefixOf?_eq_some_iff_append_eq]
  constructor
  · intro given
    obtain ⟨chars, shape, rfl⟩ := given
    exact String.toList_inj.mp (by simp [← shape])
  · intro shape
    exact ⟨rest.toList, by simp [shape], by simp⟩

theorem startsWith_or {text left right : String} (one : startsWith text left = true)
    (other : startsWith text right = true) :
    startsWith left right = true ∨ startsWith right left = true := by
  simp only [startsWith, List.isPrefixOf_iff_prefix] at one other ⊢
  exact (List.prefix_or_prefix_of_prefix one other).symm

theorem startsWith_append (initial rest : String) : startsWith (initial ++ rest) initial = true :=
  startsWith_iff.mpr ⟨rest, rfl⟩

theorem startsWith_of_append {text initial rest : String}
    (longer : startsWith text (initial ++ rest) = true) : startsWith text initial = true := by
  obtain ⟨last, rfl⟩ := startsWith_iff.mp longer
  rw [String.append_assoc]
  exact startsWith_append initial _

theorem splitOnce_append {first rest : String} {separator : Char}
    (absent : separator ∉ first.toList) :
    splitOnce (first ++ String.singleton separator ++ rest) separator = some (first, rest) := by
  have parts : (first ++ String.singleton separator ++ rest).toList.splitOn separator =
      first.toList :: rest.toList.splitOn separator := by
    simp [List.splitOn_append_cons_self, List.splitOn_eq_singleton absent]
  have joined := @List.intercalate_splitOn Char rest.toList _ _ separator
  rw [splitOnce, parts]
  cases later : rest.toList.splitOn separator with
  | nil => exact absurd later (List.splitOn_ne_nil _ _)
  | cons second others =>
      rw [later] at joined
      simp [joined]

theorem startsWith_pushPath (path part : String) : startsWith (pushPath path part) path = true := by
  unfold pushPath
  split
  · exact startsWith_append path part
  · rw [String.append_assoc]
    exact startsWith_append path _

section Below

variable (path part : String)

theorem splitChar_append : splitChar (path ++ "/" ++ part) '/' =
    splitChar path '/' ++ splitChar part '/' := by
  simp [splitChar, List.splitOn_append_cons_self]

theorem splitChar_ne_nil : splitChar path '/' ≠ [] := by
  simp [splitChar, List.splitOn_ne_nil]

theorem startsWith_root : startsWith (path ++ "/" ++ part) "/" = startsWith (path ++ "/") "/" := by
  cases chars : path.toList with
  | nil => simp [startsWith, chars]
  | cons => simp [startsWith, chars, List.isPrefixOf]

theorem components_append : components (path ++ "/" ++ part) = components (path ++ "/") ++
    (splitChar part '/').filter fun part => part ≠ "" && part ≠ "." := by
  have trailing : path ++ "/" = path ++ "/" ++ "" := by simp
  have empty : splitChar "" '/' = [""] := by decide
  rw [components, components, startsWith_root path part]
  conv_rhs => rw [trailing]
  rw [startsWith_root path "", splitChar_append, splitChar_append, empty]
  simp [List.head?_append_of_ne_nil _ (splitChar_ne_nil path), List.filter_append]

theorem components_trailing (named : path ≠ "") : components (path ++ "/") = components path := by
  have trailing : path ++ "/" = path ++ "/" ++ "" := by simp
  have empty : splitChar "" '/' = [""] := by decide
  have root : startsWith (path ++ "/") "/" = startsWith path "/" := by
    cases chars : path.toList with
    | nil => exact absurd (String.toList_inj.mp chars) named
    | cons => simp [startsWith, chars, List.isPrefixOf]
  have split : splitChar (path ++ "/") '/' = splitChar path '/' ++ [""] := by
    rw [trailing, splitChar_append, empty]
  rw [components, components, root, split]
  simp [List.head?_append_of_ne_nil _ (splitChar_ne_nil path), List.filter_append]

theorem pathStartsWith_pushPath : pathStartsWith (pushPath path part) path = true := by
  rw [pathStartsWith, List.isPrefixOf_iff_prefix]
  by_cases empty : path = ""
  · subst empty
    exact List.nil_prefix
  · unfold pushPath
    split
    · rename_i closed
      have ends : endsWith path "/" = true := by simpa [empty] using closed
      rw [endsWith, List.isSuffixOf_iff_suffix] at ends
      obtain ⟨chars, shape⟩ := ends
      have same : path = String.ofList chars ++ "/" := String.toList_inj.mp (by simp [← shape])
      rw [same, components_append]
      exact List.prefix_append _ _
    · rw [components_append, components_trailing path empty]
      exact List.prefix_append _ _

end Below

theorem startsWith_joinRel (root rel : String) : startsWith (joinRel root rel) root = true :=
  startsWith_pushPath root _

theorem pathStartsWith_joinRel (root rel : String) :
    pathStartsWith (joinRel root rel) root = true :=
  pathStartsWith_pushPath root _

section Bytes

theorem asBytes_toByteArray (text : String) : (asBytes text).toByteArray = text.toByteArray :=
  String.utf8Encode_toList

/-- Two texts of the same bytes are equal. -/
theorem asBytes_injective : Function.Injective asBytes := by
  intro left right same
  apply String.toByteArray_inj.mp
  rw [← asBytes_toByteArray, ← asBytes_toByteArray, same]

theorem utf8Size_of_isAsciiHexdigit {char : Char} (digit : isAsciiHexdigit char = true) :
    char.utf8Size = 1 := by
  have ascii : char.val ≤ 127 := by
    simp only [isAsciiHexdigit, Bool.or_eq_true, Bool.and_eq_true, decide_eq_true_eq,
      Char.le_def] at digit
    rcases digit with (⟨_, below⟩ | ⟨_, below⟩) | ⟨_, below⟩
    · exact UInt32.le_trans below (by decide)
    · exact UInt32.le_trans below (by decide)
    · exact UInt32.le_trans below (by decide)
  simp [Char.utf8Size, ascii]

theorem utf8ByteSize_of_digits {chars : List Char} (digits : chars.all isAsciiHexdigit = true) :
    (String.ofList chars).utf8ByteSize = chars.length := by
  rw [String.utf8ByteSize_ofList]
  induction chars with
  | nil => rfl
  | cons char rest ih =>
      rw [List.all_cons, Bool.and_eq_true] at digits
      rw [String.utf8Len_cons, ih digits.2, utf8Size_of_isAsciiHexdigit digits.1, List.length_cons]

end Bytes

section Trim

theorem trim_eq_self {text : String} (dense : ∀ char ∈ text.toList, isWhitespace char = false) :
    trim text = text := by
  have starts : text.toList.dropWhile isWhitespace = text.toList := by
    rw [List.dropWhile_eq_self_iff]
    intro nonempty
    rw [dense _ (List.getElem_mem nonempty)]
    exact Bool.false_ne_true
  have ends : text.toList.rdropWhile isWhitespace = text.toList := by
    rw [List.rdropWhile_eq_self_iff]
    intro nonempty
    rw [dense _ (List.getLast_mem nonempty)]
    exact Bool.false_ne_true
  unfold trim
  rw [starts, ends, String.ofList_toList]

end Trim

section Relative

theorem not_mem_of_mem_splitOn {separator : Char} {chars part : List Char}
    (member : part ∈ chars.splitOn separator) : separator ∉ part := by
  induction chars generalizing part with
  | nil =>
      rw [List.splitOn_nil, List.mem_singleton] at member
      simp [member]
  | cons char rest ih =>
      rw [List.splitOn_cons_eq_if_modifyHead] at member
      split at member
      · rcases List.mem_cons.mp member with rfl | later
        · simp
        · exact ih later
      · rename_i different
        cases split : rest.splitOn separator with
        | nil => exact absurd split (List.splitOn_ne_nil _ _)
        | cons head tail =>
            rw [split, List.modifyHead_cons] at member
            rcases List.mem_cons.mp member with rfl | later
            · have apart : separator ≠ char := by
                intro same
                simp [same] at different
              exact fun inside => (List.mem_cons.mp inside).elim apart
                (ih (split ▸ List.mem_cons_self))
            · exact ih (split ▸ List.mem_cons_of_mem head later)

/-- A relative path as a walk writes it: names between separators. -/
def ProperRel (rel : String) : Prop :=
  ∀ part ∈ splitChar rel '/', part ≠ ""

theorem endsWith_slash {path : String} (named : path ≠ "") (whole : '/' ∉ path.toList)
    (front : String) : endsWith (front ++ path) "/" = false := by
  rw [Bool.eq_false_iff, endsWith, ne_eq, List.isSuffixOf_iff_suffix]
  intro suffix
  obtain ⟨before, shape⟩ := suffix
  have nonempty : path.toList ≠ [] := fun empty => named (String.toList_inj.mp empty)
  have last := congrArg List.getLast? shape
  simp only [String.toList_append, List.getLast?_append_of_ne_nil _ nonempty] at last
  exact whole (List.mem_of_getLast? (last.symm.trans (by simp)))

/-- Names that are pushed onto a path follow it, each after a separator. -/
theorem foldl_pushPath {path : String} {parts : List String} (named : path ≠ "")
    (unclosed : endsWith path "/" = false)
    (names : ∀ part ∈ parts, part ≠ "" ∧ '/' ∉ part.toList) :
    (parts.foldl pushPath path).toList =
      path.toList ++ (parts.flatMap fun part => '/' :: part.toList) := by
  induction parts generalizing path with
  | nil => simp
  | cons part rest ih =>
      obtain ⟨nonempty, whole⟩ := names part List.mem_cons_self
      have pushed : pushPath path part = path ++ "/" ++ part := by
        rw [pushPath, if_neg]
        simp [named, unclosed]
      rw [List.foldl_cons, pushed, ih (by simp) (endsWith_slash nonempty whole _) fun other member =>
        names other (List.mem_cons_of_mem part member)]
      simp

theorem joinRel_eq {rel : String} (proper : ProperRel rel) (root : String) :
    joinRel root rel = pushPath root rel := by
  have names : ∀ part ∈ splitChar rel '/', part ≠ "" ∧ '/' ∉ part.toList := by
    intro part member
    refine ⟨proper part member, ?_⟩
    obtain ⟨chars, among, rfl⟩ := List.mem_map.mp member
    simpa using not_mem_of_mem_splitOn among
  have whole := @List.intercalate_splitOn Char rel.toList _ _ '/'
  unfold splitChar at names
  unfold joinRel splitChar
  cases split : rel.toList.splitOn '/' with
  | nil => exact absurd split (List.splitOn_ne_nil _ _)
  | cons first rest =>
      rw [split, List.map_cons] at names
      obtain ⟨nonempty, inside⟩ := names _ List.mem_cons_self
      have start : pushPath "" (String.ofList first) = String.ofList first := by
        simp [pushPath]
      have pushed := foldl_pushPath nonempty (endsWith_slash nonempty inside "")
        fun other member => names other (List.mem_cons_of_mem _ member)
      congr 1
      apply String.toList_inj.mp
      rw [List.map_cons, List.foldl_cons, start, pushed, ← whole, split, Delimited.intercalate_cons]
      simp [List.flatMap_map]

theorem joinRel_inj {root rel other : String} (proper : ProperRel rel) (also : ProperRel other)
    (same : joinRel root rel = joinRel root other) : rel = other := by
  rw [joinRel_eq proper, joinRel_eq also] at same
  unfold pushPath at same
  split at same
  · exact String.append_right_inj _ |>.mp same
  · exact String.append_right_inj _ |>.mp same

/-- Splitting at the last separator cuts the text there. -/
theorem rsplitOnce_append {front last : String} {separator : Char}
    (absent : separator ∉ last.toList) :
    rsplitOnce (front ++ String.singleton separator ++ last) separator = some (front, last) := by
  have parts : (front ++ String.singleton separator ++ last).toList.splitOn separator =
      front.toList.splitOn separator ++ [last.toList] := by
    simp [List.splitOn_append_cons_self, List.splitOn_eq_singleton absent]
  have whole := @List.intercalate_splitOn Char front.toList _ _ separator
  unfold rsplitOnce
  rw [parts, List.reverse_append, List.reverse_singleton, List.singleton_append]
  cases shape : (front.toList.splitOn separator).reverse with
  | nil => exact absurd (List.reverse_eq_nil_iff.mp shape) (List.splitOn_ne_nil _ _)
  | cons second others =>
      dsimp only
      rw [← shape, List.reverse_reverse, whole, String.ofList_toList, String.ofList_toList]

/-- A text is split at its last separator, if it has one. -/
theorem rsplitOnce_cases (text : String) (separator : Char) :
    (separator ∉ text.toList ∧ rsplitOnce text separator = none) ∨
      ∃ front last, text = front ++ String.singleton separator ++ last ∧
        separator ∉ last.toList ∧ rsplitOnce text separator = some (front, last) := by
  by_cases inside : separator ∈ text.toList
  · obtain ⟨after, before, shape, absent⟩ :=
      List.eq_append_cons_of_mem (List.mem_reverse.mpr inside)
    have chars : text = String.ofList before.reverse ++ String.singleton separator ++
        String.ofList after.reverse := by
      apply String.toList_inj.mp
      have turned := congrArg List.reverse shape
      rw [List.reverse_reverse] at turned
      rw [turned]
      simp
    have final : separator ∉ (String.ofList after.reverse).toList := by simpa using absent
    refine .inr ⟨_, _, chars, final, ?_⟩
    rw [chars]
    exact rsplitOnce_append final
  · refine .inl ⟨inside, ?_⟩
    unfold rsplitOnce
    rw [List.splitOn_eq_singleton inside]
    rfl

/-- A text is split at its first separator, if it has one. -/
theorem splitOnce_cases (text : String) (separator : Char) :
    (separator ∉ text.toList ∧ splitOnce text separator = none) ∨
      ∃ first rest, text = first ++ String.singleton separator ++ rest ∧
        separator ∉ first.toList ∧ splitOnce text separator = some (first, rest) := by
  by_cases inside : separator ∈ text.toList
  · obtain ⟨before, after, shape, absent⟩ := List.eq_append_cons_of_mem inside
    have chars : text = String.ofList before ++ String.singleton separator ++
        String.ofList after := by
      apply String.toList_inj.mp
      rw [shape]
      simp
    have final : separator ∉ (String.ofList before).toList := by simpa using absent
    refine .inr ⟨_, _, chars, final, ?_⟩
    rw [chars]
    exact splitOnce_append final
  · refine .inl ⟨inside, ?_⟩
    unfold splitOnce
    rw [List.splitOn_eq_singleton inside]

theorem rsplitOnce_eq {text front last : String} {separator : Char}
    (split : rsplitOnce text separator = some (front, last)) :
    text = front ++ String.singleton separator ++ last := by
  have whole := @List.intercalate_splitOn Char text.toList _ _ separator
  unfold rsplitOnce at split
  split at split
  · rename_i final second rest reversed
    cases split
    have parts : text.toList.splitOn separator = (second :: rest).reverse ++ [final] := by
      rw [← List.reverse_cons, ← reversed, List.reverse_reverse]
    rw [parts, Delimited.intercalate_concat _ _ (by simp)] at whole
    apply String.toList_inj.mp
    rw [← whole]
    simp
  · cases split

theorem rsplitOnce_proper {rel parent name : String} (proper : ProperRel rel)
    (split : rsplitOnce rel '/' = some (parent, name)) : ProperRel parent := by
  unfold rsplitOnce at split
  split at split
  · rename_i last second rest reversed
    cases split
    have among : ∀ part ∈ (second :: rest).reverse, part ∈ rel.toList.splitOn '/' := by
      intro part member
      rw [← List.mem_reverse, reversed]
      exact List.mem_cons_of_mem last (List.mem_reverse.mp member)
    intro part member
    rw [splitChar, String.toList_ofList, List.splitOn_intercalate '/'
      (fun part inside => not_mem_of_mem_splitOn (among part inside)) (by simp)] at member
    obtain ⟨chars, inside, rfl⟩ := List.mem_map.mp member
    exact proper _ (List.mem_map_of_mem (among chars inside))
  · cases split

end Relative

end AgentTranscript
