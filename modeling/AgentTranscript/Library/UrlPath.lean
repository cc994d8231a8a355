import AgentTranscript.Library.Url

/-!
What the path state of the URL parser makes of its input: it cuts it at a query or a
fragment, splits it at the slashes, and then treats the segments one after the other.
-/

set_option autoImplicit false

namespace Url

open Percent

section Dots

variable {char : Char} {segment rest : List Char}

theorem toLower_cases (char : Char) : char.toLower = char ∨
    (65 ≤ char.toNat ∧ char.toNat ≤ 90 ∧ char.toLower.toNat = char.toNat + 32) := by
  unfold Char.toLower
  split
  · rename_i upper
    have low : 65 ≤ char.toNat := UInt32.le_iff_toNat_le.mp upper.1
    have high : char.toNat ≤ 90 := UInt32.le_iff_toNat_le.mp upper.2
    refine .inr ⟨low, high, ?_⟩
    show (char.val + 32).toNat = char.val.toNat + 32
    rw [UInt32.toNat_add]
    have value : char.val.toNat ≤ 90 := high
    have step : (32 : UInt32).toNat = 32 := rfl
    omega
  · exact .inl rfl

theorem eq_of_toLower {lower : Char} (same : char.toLower = lower) (plain : lower.toNat < 97) :
    char = lower := by
  rcases toLower_cases char with kept | ⟨low, -, shifted⟩
  · exact kept.symm.trans same
  · rw [same] at shifted
    omega

theorem eq_or_of_toLower (same : char.toLower = 'e') : char = 'e' ∨ char = 'E' := by
  rcases toLower_cases char with kept | ⟨-, -, shifted⟩
  · exact .inl (kept.symm.trans same)
  · rw [same] at shifted
    have code : 'e'.toNat = 'E'.toNat + 32 := rfl
    exact .inr (Char.toNat_inj.mp (by omega))

theorem decode_eq_nil : decode segment = [] ↔ segment = [] := by
  constructor
  · intro empty
    fun_cases decode segment with
    | case1 high low rest byte escaped =>
        rw [decode_escape escaped] at empty
        cases empty
    | case2 high low rest failed =>
        rw [decode, failed] at empty
        cases empty
    | case3 char rest plain =>
        rw [decode] at empty
        · exact absurd (List.append_eq_nil_iff.mp empty).1 (utf8_ne_nil char)
        · exact plain
    | case4 => rfl
  · intro empty
    rw [empty]
    rfl

theorem hexValue_eq {char : Char} {value : Nat} (hex : hexValue char = some value) :
    value < 16 ∧ (value = 2 → char = '2') ∧ (value = 14 → char = 'e' ∨ char = 'E') := by
  have two : char = '2' ↔ char.toNat = 0x32 := Char.toNat_inj.symm
  have lower : char = 'e' ↔ char.toNat = 0x65 := Char.toNat_inj.symm
  have upper : char = 'E' ↔ char.toNat = 0x45 := Char.toNat_inj.symm
  rw [two, lower, upper]
  unfold hexValue at hex
  dsimp only at hex
  split_ifs at hex <;> simp only [Option.some.injEq] at hex <;> omega

/-- A decoded dot is a dot or its escape. -/
theorem decode_eq_dot {bytes : List UInt8} (dot : decode segment = 0x2E :: bytes) :
    (∃ rest, segment = '.' :: rest ∧ decode rest = bytes) ∨
      ∃ digit rest, (digit = 'e' ∨ digit = 'E') ∧ segment = '%' :: '2' :: digit :: rest ∧
        decode rest = bytes := by
  fun_cases decode segment with
  | case1 high low rest byte escaped =>
      rw [decode_escape escaped] at dot
      obtain ⟨rfl, decoded⟩ := List.cons_eq_cons.mp dot
      obtain ⟨first, hex, again⟩ := Option.bind_eq_some_iff.mp escaped
      obtain ⟨second, also, same⟩ := Option.map_eq_some_iff.mp again
      obtain ⟨small, two, -⟩ := hexValue_eq hex
      obtain ⟨little, -, fourteen⟩ := hexValue_eq also
      have value := congrArg UInt8.toNat same
      simp only [UInt8.toNat_ofNat'] at value
      have digits : first = 2 ∧ second = 14 := by
        have whole : (first * 16 + second) % 2 ^ 8 = 46 := value
        omega
      refine .inr ⟨low, rest, fourteen digits.2, ?_, decoded⟩
      rw [two digits.1]
  | case2 high low rest failed =>
      rw [decode, failed] at dot
      cases dot
  | case3 char rest plain =>
      rw [decode] at dot
      · by_cases ascii : char.toNat ≤ 0x7F
        · rw [utf8_ascii ascii] at dot
          obtain ⟨first, decoded⟩ := List.cons_eq_cons.mp dot
          have value := congrArg UInt8.toNat first
          simp only [UInt8.toNat_ofNat'] at value
          have code : char.toNat = '.'.toNat := by
            have whole : char.toNat % 2 ^ 8 = 46 := value
            have point : '.'.toNat = 46 := rfl
            omega
          exact .inl ⟨rest, by rw [Char.toNat_inj.mp code], decoded⟩
        · obtain ⟨first, others, shape⟩ := List.exists_cons_of_ne_nil (utf8_ne_nil char)
          rw [shape] at dot
          obtain ⟨rfl, -⟩ := List.cons_eq_cons.mp dot
          have high := utf8_high (Nat.lt_of_not_le ascii) _ (shape ▸ List.mem_cons_self)
          exact absurd high (by decide)
      · exact plain
  | case4 => cases dot

theorem decode_dot : decode ('.' :: rest) = 0x2E :: decode rest :=
  decode_char (by decide)

theorem decode_escaped_dot {digit : Char} (either : digit = 'e' ∨ digit = 'E') :
    decode ('%' :: '2' :: digit :: rest) = 0x2E :: decode rest := by
  apply decode_escape
  rcases either with rfl | rfl <;> rfl

theorem lower_eq_dot {tail : List Char} (lower : segment.map Char.toLower = '.' :: tail) :
    ∃ rest, segment = '.' :: rest ∧ rest.map Char.toLower = tail := by
  obtain ⟨char, rest, rfl, same, others⟩ := List.map_eq_cons_iff.mp lower
  exact ⟨rest, by rw [eq_of_toLower same (by decide)], others⟩

theorem lower_eq_escape {tail : List Char}
    (lower : segment.map Char.toLower = '%' :: '2' :: 'e' :: tail) :
    ∃ digit rest, (digit = 'e' ∨ digit = 'E') ∧ segment = '%' :: '2' :: digit :: rest ∧
      rest.map Char.toLower = tail := by
  obtain ⟨percent, after, rfl, one, later⟩ := List.map_eq_cons_iff.mp lower
  obtain ⟨two, last, rfl, also, more⟩ := List.map_eq_cons_iff.mp later
  obtain ⟨digit, rest, rfl, same, others⟩ := List.map_eq_cons_iff.mp more
  exact ⟨digit, rest, eq_or_of_toLower same,
    by rw [eq_of_toLower one (by decide), eq_of_toLower also (by decide)], others⟩

theorem isSingleDot_iff : isSingleDot segment = true ↔ decode segment = [0x2E] := by
  unfold isSingleDot
  rw [decide_eq_true_eq]
  constructor
  · intro dot
    rcases List.mem_cons.mp dot with plain | escaped
    · obtain ⟨rest, rfl, last⟩ := lower_eq_dot plain
      rw [decode_dot, List.map_eq_nil_iff.mp last]
      rfl
    · obtain ⟨digit, rest, either, rfl, last⟩ := lower_eq_escape (List.mem_singleton.mp escaped)
      rw [decode_escaped_dot either, List.map_eq_nil_iff.mp last]
      rfl
  · intro dot
    rcases decode_eq_dot dot with ⟨rest, rfl, last⟩ | ⟨digit, rest, either, rfl, last⟩
    · rw [decode_eq_nil.mp last]
      decide
    · rw [decode_eq_nil.mp last]
      rcases either with rfl | rfl <;> decide

theorem isDoubleDot_iff : isDoubleDot segment = true ↔ decode segment = [0x2E, 0x2E] := by
  unfold isDoubleDot
  rw [decide_eq_true_eq]
  constructor
  · intro dots
    simp only [List.map_cons, List.map_nil, List.mem_cons, List.not_mem_nil, or_false] at dots
    rcases dots with plain | second | first | escaped
    · obtain ⟨rest, rfl, next⟩ := lower_eq_dot plain
      obtain ⟨rest, rfl, last⟩ := lower_eq_dot next
      rw [decode_dot, decode_dot, List.map_eq_nil_iff.mp last]
      rfl
    · obtain ⟨rest, rfl, next⟩ := lower_eq_dot second
      obtain ⟨digit, rest, either, rfl, last⟩ := lower_eq_escape next
      rw [decode_dot, decode_escaped_dot either, List.map_eq_nil_iff.mp last]
      rfl
    · obtain ⟨digit, rest, either, rfl, next⟩ := lower_eq_escape first
      obtain ⟨rest, rfl, last⟩ := lower_eq_dot next
      rw [decode_escaped_dot either, decode_dot, List.map_eq_nil_iff.mp last]
      rfl
    · obtain ⟨digit, rest, either, rfl, next⟩ := lower_eq_escape escaped
      obtain ⟨other, rest, too, rfl, last⟩ := lower_eq_escape next
      rw [decode_escaped_dot either, decode_escaped_dot too, List.map_eq_nil_iff.mp last]
      rfl
  · intro dots
    rcases decode_eq_dot dots with ⟨rest, rfl, next⟩ | ⟨digit, rest, either, rfl, next⟩
    · rcases decode_eq_dot next with ⟨rest, rfl, last⟩ | ⟨digit, rest, either, rfl, last⟩
      · rw [decode_eq_nil.mp last]
        decide
      · rw [decode_eq_nil.mp last]
        rcases either with rfl | rfl <;> decide
    · rcases decode_eq_dot next with ⟨rest, rfl, last⟩ | ⟨other, rest, too, rfl, last⟩
      · rw [decode_eq_nil.mp last]
        rcases either with rfl | rfl <;> decide
      · rw [decode_eq_nil.mp last]
        rcases either with rfl | rfl <;> rcases too with rfl | rfl <;> decide

end Dots

section Ascii

variable {char : Char}

theorem isAlphanum_ascii (word : char.isAlphanum = true) : char.toNat < 0x80 := by
  simp only [Char.isAlphanum, Char.isAlpha, Char.isUpper, Char.isLower, Char.isDigit,
    Bool.or_eq_true, Bool.and_eq_true, decide_eq_true_eq, UInt32.le_iff_toNat_le, ge_iff_le] at word
  have upper : 'Z'.val.toNat = 90 := rfl
  have lower : 'z'.val.toNat = 122 := rfl
  have digit : '9'.val.toNat = 57 := rfl
  show char.val.toNat < 0x80
  omega

/-- What holds of the first 128 characters holds of an ASCII character. -/
theorem ascii_all {property : Char → Prop} (ascii : char.toNat < 0x80)
    (each : ∀ code < 0x80, property (Char.ofNat code)) : property char := by
  have here := each char.toNat ascii
  rwa [Char.ofNat_toNat] at here

end Ascii

section Segments

variable {special file : Bool} {path segments : List Segment} {buffer segment : Segment}

/-- The segments of an input, encoded. -/
def readSegments (special : Bool) (input : List Char) : List Segment :=
  ((input.takeWhile fun char => !isCut char).splitOnP (isSlash special)).map (encode pathSet)

/-- The segments of a path, each closed by a slash but the last. -/
def closeAll (file : Bool) : List Segment → List Segment → List Segment
  | path, [] => path
  | path, [last] => closeSegment file false path last
  | path, segment :: next :: rest =>
      closeAll file (closeSegment file true path segment) (next :: rest)

theorem readSegments_ne_nil (special : Bool) (input : List Char) :
    readSegments special input ≠ [] := by
  unfold readSegments
  simp [List.splitOnP_ne_nil]

theorem closeAll_cons (segment : Segment) (nonempty : segments ≠ []) :
    closeAll file path (segment :: segments) =
      closeAll file (closeSegment file true path segment) segments := by
  cases segments with
  | nil => exact absurd rfl nonempty
  | cons next rest => rfl

theorem slash_not_cut {char : Char} (slash : isSlash special char = true) : isCut char = false := by
  unfold isSlash at slash
  unfold isCut
  rw [Bool.or_eq_true, Bool.and_eq_true, decide_eq_true_eq, decide_eq_true_eq] at slash
  rcases slash with rfl | ⟨-, rfl⟩ <;> rfl

theorem pathState_eq (special file : Bool) (path : List Segment) (buffer : Segment)
    (input : List Char) : pathState special file path buffer input =
      closeAll file path ((readSegments special input).modifyHead (buffer ++ ·)) := by
  induction input generalizing path buffer with
  | nil => simp [pathState, readSegments, closeAll, encode]
  | cons char rest ih =>
      rw [pathState]
      split
      · rename_i slash
        have kept := slash_not_cut slash
        have read : readSegments special (char :: rest) = [] :: readSegments special rest := by
          simp [readSegments, kept, List.splitOnP_cons_eq_if_modifyHead, slash, encode]
        rw [ih, read, List.modifyHead_cons, List.append_nil,
          closeAll_cons _ (readSegments_ne_nil special rest)]
        cases readSegments special rest <;> rfl
      · rename_i inside
        split
        · rename_i cut
          simp [readSegments, cut, closeAll, encode]
        · rename_i kept
          have read : readSegments special (char :: rest) =
              (readSegments special rest).modifyHead (encodeChar pathSet char ++ ·) := by
            obtain ⟨first, others, shape⟩ := List.exists_cons_of_ne_nil
              (List.splitOnP_ne_nil (isSlash special) (rest.takeWhile fun char => !isCut char))
            simp only [readSegments, List.takeWhile_cons, kept, Bool.not_false, if_true,
              List.splitOnP_cons_eq_if_modifyHead, inside]
            rw [shape]
            rfl
          rw [ih, read]
          cases readSegments special rest <;> simp

end Segments

section Closed

variable {file slash : Bool} {path segments : List Segment} {segment : Segment}

theorem mem_of_mem_shorten (member : segment ∈ shorten file path) : segment ∈ path := by
  unfold shorten at member
  split at member
  · split at member
    · exact member
    · cases member
  · exact List.dropLast_subset path member

/-- What holds of the segments that are added holds of the path. -/
theorem closeSegment_all {property : Segment → Prop} (empty : property [])
    (drive : ∀ segment, property segment → property (normalizeDrive segment))
    (held : ∀ other ∈ path, property other)
    (added : isSingleDot segment = false → isDoubleDot segment = false → property segment) :
    ∀ other ∈ closeSegment file slash path segment, property other := by
  intro other member
  have shortened : ∀ other ∈ shorten file path, property other :=
    fun other member => held other (mem_of_mem_shorten member)
  have appended : ∀ {before : List Segment} {last : Segment}, (∀ other ∈ before, property other) →
      property last → other ∈ before ++ [last] → property other := by
    intro before last all new among
    rcases List.mem_append.mp among with old | final
    · exact all other old
    · rwa [List.mem_singleton.mp final]
  unfold closeSegment at member
  split at member
  · split at member
    · exact shortened other member
    · exact appended shortened empty member
  · rename_i double
    split at member
    · split at member
      · exact held other member
      · exact appended held empty member
    · rename_i single
      have new := added (Bool.eq_false_iff.mpr single) (Bool.eq_false_iff.mpr double)
      apply appended held _ member
      split
      · exact drive segment new
      · exact new

theorem closeAll_all {property : Segment → Prop} (empty : property [])
    (drive : ∀ segment, property segment → property (normalizeDrive segment))
    (held : ∀ other ∈ path, property other)
    (added : ∀ other ∈ segments, isSingleDot other = false → isDoubleDot other = false →
      property other) :
    ∀ other ∈ closeAll file path segments, property other := by
  induction segments generalizing path with
  | nil => exact held
  | cons first rest ih =>
      have closed : ∀ slash, ∀ other ∈ closeSegment file slash path first, property other :=
        fun slash => closeSegment_all empty drive held (added first List.mem_cons_self)
      cases rest with
      | nil => exact closed false
      | cons second others =>
          exact ih (closed true) fun other member =>
            added other (List.mem_cons_of_mem first member)

theorem closeAll_append (front : List Segment) (nonempty : segments ≠ []) :
    closeAll file path (front ++ segments) =
      closeAll file (front.foldl (closeSegment file true) path) segments := by
  induction front generalizing path with
  | nil => rfl
  | cons first rest ih =>
      rw [List.cons_append, closeAll_cons first (List.append_ne_nil_of_right_ne_nil rest nonempty),
        ih, List.foldl_cons]

theorem closeSegment_plain (single : isSingleDot segment = false)
    (double : isDoubleDot segment = false)
    (drive : file = true → path = [] → normalizeDrive segment = segment) :
    closeSegment file slash path segment = path ++ [segment] := by
  unfold closeSegment
  rw [if_neg (by simp [double]), if_neg (by simp [single])]
  split
  · rename_i first
    rw [Bool.and_eq_true, List.isEmpty_iff] at first
    rw [drive first.1 first.2]
  · rfl

/-- Segments without dots are kept as they are. -/
theorem closeAll_plain (nonempty : segments ≠ [])
    (plain : ∀ other ∈ segments, isSingleDot other = false ∧ isDoubleDot other = false)
    (drive : file = true → path = [] →
      ∀ first, segments.head? = some first → normalizeDrive first = first) :
    closeAll file path segments = path ++ segments := by
  induction segments generalizing path with
  | nil => exact absurd rfl nonempty
  | cons first rest ih =>
      obtain ⟨single, double⟩ := plain first List.mem_cons_self
      have closed : ∀ slash, closeSegment file slash path first = path ++ [first] :=
        fun slash => closeSegment_plain single double
          fun scheme empty => drive scheme empty first rfl
      cases rest with
      | nil => exact closed false
      | cons second others =>
          rw [closeAll, closed, ih (List.cons_ne_nil second others)
            (fun other member => plain other (List.mem_cons_of_mem first member))]
          · simp
          · intro _ empty
            simp at empty

/-- A drive letter at the start of a file path gets a colon. -/
theorem closeAll_first {rest : List Segment}
    (plain : ∀ other ∈ segment :: rest, isSingleDot other = false ∧ isDoubleDot other = false) :
    closeAll true [] (segment :: rest) = normalizeDrive segment :: rest := by
  obtain ⟨single, double⟩ := plain segment List.mem_cons_self
  have closed : ∀ slash, closeSegment true slash [] segment = [normalizeDrive segment] := by
    intro slash
    unfold closeSegment
    rw [if_neg (by simp [double]), if_neg (by simp [single])]
    rfl
  cases rest with
  | nil => exact closed false
  | cons second others =>
      rw [closeAll, closed, closeAll_plain (List.cons_ne_nil second others)
        (fun other member => plain other (List.mem_cons_of_mem segment member))]
      · rfl
      · intro _ empty
        cases empty

theorem closeAll_ne_nil (nonempty : segments ≠ []) : closeAll file path segments ≠ [] := by
  have last : ∀ (path : List Segment) (segment : Segment),
      closeSegment file false path segment ≠ [] := by
    intro path segment
    unfold closeSegment
    split
    · simp
    · split <;> simp
  induction segments generalizing path with
  | nil => exact absurd rfl nonempty
  | cons first rest ih =>
      cases rest with
      | nil => exact last path first
      | cons second others => exact ih (List.cons_ne_nil second others)

/-- Whether a segment names something. -/
def isNamed (segment : Segment) : Bool :=
  !segment.isEmpty && !isSingleDot segment

theorem isNamed_iff : isNamed segment = true ↔ decode segment ≠ [] ∧ decode segment ≠ [0x2E] := by
  unfold isNamed
  rw [Bool.and_eq_true, Bool.not_eq_true', Bool.not_eq_true', List.isEmpty_eq_false_iff,
    Bool.eq_false_iff, ne_eq, ne_eq, ne_eq, ne_eq, isSingleDot_iff, decode_eq_nil]

theorem isNamed_normalizeDrive (segment : Segment) :
    isNamed (normalizeDrive segment) = isNamed segment := by
  unfold normalizeDrive
  split
  · split <;> simp [isNamed, isSingleDot]
  · rfl

theorem isDoubleDot_normalizeDrive (segment : Segment) :
    isDoubleDot (normalizeDrive segment) = isDoubleDot segment := by
  unfold normalizeDrive
  split
  · split
    · rename_i letter mark drive
      simp only [isDriveLetter, Bool.and_eq_true, Bool.or_eq_true, decide_eq_true_eq] at drive
      rcases drive.2 with rfl | rfl <;> simp [isDoubleDot]
    · rfl
  · rfl

theorem closeSegment_names (double : isDoubleDot segment = false)
    (drive : normalizeDrive segment = segment) :
    (closeSegment file slash path segment).filter isNamed =
      (path ++ [segment]).filter isNamed := by
  unfold closeSegment
  rw [if_neg (by simp [double])]
  split
  · rename_i single
    have unnamed : isNamed segment = false := by simp [isNamed, single]
    have empty : isNamed [] = false := rfl
    split <;> simp [unnamed, empty]
  · rw [drive, ite_self]

/-- Without dot-dots the named segments are kept. -/
theorem closeAll_names (double : ∀ other ∈ segments, isDoubleDot other = false)
    (drive : ∀ other ∈ segments, normalizeDrive other = other) :
    (closeAll file path segments).filter isNamed = (path ++ segments).filter isNamed := by
  induction segments generalizing path with
  | nil => simp [closeAll]
  | cons first rest ih =>
      have closed : ∀ slash, (closeSegment file slash path first).filter isNamed =
          (path ++ [first]).filter isNamed :=
        fun slash => closeSegment_names (double first List.mem_cons_self)
          (drive first List.mem_cons_self)
      cases rest with
      | nil => exact closed false
      | cons second others =>
          rw [closeAll, ih (fun other member => double other (List.mem_cons_of_mem first member))
            (fun other member => drive other (List.mem_cons_of_mem first member)),
            List.filter_append, closed, ← List.filter_append]
          simp

/-- How many bytes the segments of a path stand for. -/
def pathSize (path : List Segment) : Nat :=
  (path.map fun segment => (decode segment).length).sum

theorem pathSize_append (path segments : List Segment) :
    pathSize (path ++ segments) = pathSize path + pathSize segments := by
  simp [pathSize]

theorem decode_drive {letter : Char} (drive : letter.isAlpha = true) (rest : List Char) :
    decode (letter :: rest) = String.utf8EncodeChar letter ++ decode rest := by
  apply decode_char
  intro percent
  rw [percent] at drive
  exact absurd drive (by decide)

theorem decode_normalizeDrive (segment : Segment) :
    (decode (normalizeDrive segment)).length = (decode segment).length := by
  unfold normalizeDrive
  split
  · rename_i letter mark
    split
    · rename_i drive
      simp only [isDriveLetter, Bool.and_eq_true, Bool.or_eq_true, decide_eq_true_eq] at drive
      rw [decode_drive drive.1, decode_drive drive.1]
      rcases drive.2 with rfl | rfl <;> simp [decode_char, utf8_ascii, decode]
    · rfl
  · rfl

theorem mem_decode_normalizeDrive {byte : UInt8} {segment : Segment}
    (member : byte ∈ decode (normalizeDrive segment)) : byte = 0x3A ∨ byte ∈ decode segment := by
  unfold normalizeDrive at member
  split at member
  · rename_i letter mark
    split at member
    · rename_i drive
      simp only [isDriveLetter, Bool.and_eq_true] at drive
      rw [decode_drive drive.1] at member ⊢
      rcases List.mem_append.mp member with inside | colon
      · exact .inr (List.mem_append_left _ inside)
      · exact .inl (List.mem_singleton.mp colon)
    · exact .inr member
  · exact .inr member

theorem pathSize_shorten (file : Bool) (path : List Segment) :
    pathSize (shorten file path) ≤ pathSize path := by
  unfold shorten
  split
  · split
    · exact le_refl _
    · exact Nat.zero_le _
  · exact List.Sublist.sum_le_sum ((List.dropLast_sublist path).map _) fun _ _ => Nat.zero_le _

theorem pathSize_closeSegment : pathSize (closeSegment file slash path segment) ≤
    pathSize (path ++ [segment]) := by
  have shortened := pathSize_shorten file path
  have empty : pathSize [[]] = 0 := rfl
  have last : ∀ segment, pathSize [segment] = (decode segment).length := by simp [pathSize]
  unfold closeSegment
  split
  · split <;> simp only [pathSize_append, empty] <;> omega
  · split
    · split <;> simp only [pathSize_append, empty] <;> omega
    · rw [pathSize_append, pathSize_append, last, last]
      split
      · rw [decode_normalizeDrive]
      · exact le_refl _

theorem pathSize_closeAll :
    pathSize (closeAll file path segments) ≤ pathSize (path ++ segments) := by
  induction segments generalizing path with
  | nil => simp [closeAll]
  | cons first rest ih =>
      cases rest with
      | nil => exact pathSize_closeSegment
      | cons second others =>
          refine ih.trans ?_
          have closed := @pathSize_closeSegment file true path first
          simp only [pathSize_append] at closed ⊢
          have split : pathSize (first :: second :: others) =
              pathSize [first] + pathSize (second :: others) := pathSize_append [first] _
          omega

/-- Segments with dots make a path shorter. -/
theorem closeSegment_shorter (dots : isSingleDot segment = true ∨ isDoubleDot segment = true) :
    (Path.list (closeSegment false slash path segment)).text.length <
      (Path.list (path ++ [segment])).text.length := by
  have shortened : (Path.list (shorten false path)).text.length ≤
      (Path.list path).text.length := by
    have among : (shorten false path).Sublist path := by
      unfold shorten
      split
      · exact List.nil_sublist _
      · exact List.dropLast_sublist path
    exact (among.flatMap _).length_le
  have nonempty : 0 < segment.length := by
    apply List.length_pos_of_ne_nil
    rintro rfl
    rcases dots with single | double
    · cases single
    · cases double
  simp only [Path.text] at shortened ⊢
  unfold closeSegment
  split
  · split <;> simp only [List.flatMap_append, List.length_append, List.flatMap_singleton,
      List.length_cons, List.length_nil] <;> omega
  · rename_i other
    rw [if_pos (dots.resolve_right other)]
    split <;> simp only [List.flatMap_append, List.length_append, List.flatMap_singleton,
      List.length_cons, List.length_nil] <;> omega

/-- A path is as long as its segments only if it has no dots. -/
theorem closeAll_shorter (path segments : List Segment) :
    (∀ other ∈ segments, isSingleDot other = false ∧ isDoubleDot other = false) ∨
      (Path.list (closeAll false path segments)).text.length <
        (Path.list (path ++ segments)).text.length := by
  have added : ∀ front back : List Segment, (Path.list (front ++ back)).text.length =
      (Path.list front).text.length + (Path.list back).text.length := by
    intro front back
    simp only [Path.text, List.flatMap_append, List.length_append]
  have first : ∀ slash (path : List Segment) (segment : Segment),
      (isSingleDot segment = false ∧ isDoubleDot segment = false ∧
        closeSegment false slash path segment = path ++ [segment]) ∨
      (Path.list (closeSegment false slash path segment)).text.length <
        (Path.list (path ++ [segment])).text.length := by
    intro slash path segment
    by_cases dots : isSingleDot segment = true ∨ isDoubleDot segment = true
    · exact .inr (closeSegment_shorter dots)
    · rw [not_or, Bool.not_eq_true, Bool.not_eq_true] at dots
      exact .inl ⟨dots.1, dots.2, closeSegment_plain dots.1 dots.2 (fun file => by cases file)⟩
  induction segments generalizing path with
  | nil => simp
  | cons segment rest ih =>
      cases rest with
      | nil =>
          rcases first false path segment with ⟨single, double, -⟩ | shorter
          · exact .inl fun other member => List.mem_singleton.mp member ▸ ⟨single, double⟩
          · exact .inr shorter
      | cons second others =>
          rw [closeAll]
          rcases first true path segment with ⟨single, double, kept⟩ | shorter
          · rw [kept]
            rcases ih (path ++ [segment]) with plain | shorter
            · exact .inl (List.forall_mem_cons.mpr ⟨⟨single, double⟩, plain⟩)
            · rw [List.append_assoc] at shorter
              exact .inr shorter
          · have later : (Path.list (closeAll false (closeSegment false true path segment)
                (second :: others))).text.length ≤
                (Path.list (closeSegment false true path segment ++ second :: others)).text.length := by
              rcases ih (closeSegment false true path segment) with plain | less
              · rw [closeAll_plain (List.cons_ne_nil second others) plain fun file => by cases file]
              · exact less.le
            refine .inr (later.trans_lt ?_)
            have whole := added [segment] (second :: others)
            rw [List.singleton_append] at whole
            rw [added] at shorter ⊢
            rw [added]
            omega

end Closed

section Size

variable {special file : Bool} {input : List Char}

theorem flatten_splitOnP {α : Type*} (separates : α → Bool) (items : List α) :
    (items.splitOnP separates).flatten = items.filter fun item => !separates item := by
  induction items with
  | nil => simp
  | cons item rest ih =>
      obtain ⟨first, others, shape⟩ := List.exists_cons_of_ne_nil
        (List.splitOnP_ne_nil separates rest)
      rw [List.splitOnP_cons_eq_if_modifyHead, List.filter_cons, ← ih, shape]
      cases separates item <;> simp

/-- What is appended without separators goes to the last part. -/
theorem splitOnP_append {α : Type*} {separates : α → Bool} {tail : List α}
    (whole : ∀ item ∈ tail, separates item = false) (items : List α) :
    ∃ init last, items.splitOnP separates = init ++ [last] ∧
      (items ++ tail).splitOnP separates = init ++ [last ++ tail] := by
  induction items with
  | nil => exact ⟨[], [], by simp, by simp [List.splitOnP_eq_singleton whole]⟩
  | cons item rest ih =>
      obtain ⟨init, last, parts, longer⟩ := ih
      rw [List.cons_append, List.splitOnP_cons_eq_if_modifyHead,
        List.splitOnP_cons_eq_if_modifyHead, parts, longer]
      split
      · exact ⟨[] :: init, last, rfl, rfl⟩
      · cases init with
        | nil => exact ⟨[], item :: last, rfl, rfl⟩
        | cons first others => exact ⟨(item :: first) :: others, last, rfl, rfl⟩

/-- The characters that end up in segments. -/
def keptChars (special : Bool) (input : List Char) : List Char :=
  (input.takeWhile fun char => !isCut char).filter fun char => !isSlash special char

theorem not_mem_splitOnP {α : Type*} {separates : α → Bool} {items part : List α} {item : α}
    (absent : item ∉ items) (member : part ∈ items.splitOnP separates) : item ∉ part := by
  intro inside
  have flat : item ∈ (items.splitOnP separates).flatten :=
    List.mem_flatten.mpr ⟨part, member, inside⟩
  rw [flatten_splitOnP] at flat
  exact absent (List.mem_of_mem_filter flat)

theorem separates_of_mem_splitOnP {α : Type*} {separates : α → Bool} {items part : List α}
    (member : part ∈ items.splitOnP separates) : ∀ item ∈ part, separates item = false := by
  intro item inside
  have flat : item ∈ (items.splitOnP separates).flatten :=
    List.mem_flatten.mpr ⟨part, member, inside⟩
  rw [flatten_splitOnP] at flat
  simpa using (List.mem_filter.mp flat).2

theorem length_utf8_flatten (parts : List (List Char)) :
    (utf8 parts.flatten).length = (parts.map fun part => (utf8 part).length).sum := by
  induction parts with
  | nil => rfl
  | cons part parts ih =>
      unfold utf8 at ih ⊢
      rw [List.flatten_cons, List.flatMap_append, List.length_append, ih, List.map_cons,
        List.sum_cons]

theorem pathSize_readSegments (plain : '%' ∉ input) :
    pathSize (readSegments special input) = (utf8 (keptChars special input)).length := by
  have absent : '%' ∉ input.takeWhile fun char => !isCut char :=
    fun inside => plain ((List.takeWhile_sublist _).mem inside)
  unfold keptChars pathSize readSegments
  rw [← flatten_splitOnP, length_utf8_flatten, List.map_map]
  congr 1
  apply List.map_congr_left
  intro part member
  exact congrArg List.length (decode_encode pathSet (not_mem_splitOnP absent member))

/-- The named segments of a path have no more bytes than what is kept of the input. -/
theorem length_named_le (plain : '%' ∉ input) :
    (((closeAll file [] (readSegments special input)).filter isNamed).map decode).flatten.length ≤
      (utf8 (keptChars special input)).length := by
  rw [← pathSize_readSegments plain, List.length_flatten, List.map_map]
  have among : ((closeAll file [] (readSegments special input)).filter isNamed).Sublist
      (closeAll file [] (readSegments special input)) := List.filter_sublist
  calc (((closeAll file [] (readSegments special input)).filter isNamed).map
          (List.length ∘ decode)).sum
      ≤ pathSize (closeAll file [] (readSegments special input)) :=
        List.Sublist.sum_le_sum (among.map _) fun _ _ => Nat.zero_le _
    _ ≤ pathSize ([] ++ readSegments special input) := pathSize_closeAll

/-- An input without cuts and backslashes is split at its slashes. -/
theorem readSegments_eq (whole : ∀ char ∈ input, isCut char = false)
    (straight : special = true → '\\' ∉ input) :
    readSegments special input = (input.splitOn '/').map (encode pathSet) := by
  have taken : (input.takeWhile fun char => !isCut char) = input := by
    rw [List.takeWhile_eq_self_iff]
    intro char member
    rw [whole char member]
    rfl
  unfold readSegments
  rw [taken, List.splitOn_eq_splitOnP]
  congr 1
  clear whole taken
  induction input with
  | nil => rfl
  | cons char rest ih =>
      have slash : isSlash special char = (char == '/') := by
        unfold isSlash
        cases special with
        | false => simp [Bool.beq_eq_decide_eq]
        | true =>
            have plain := straight rfl
            rw [List.mem_cons, not_or] at plain
            simp [Ne.symm plain.1, Bool.beq_eq_decide_eq]
      rw [List.splitOnP_cons_eq_if_modifyHead, List.splitOnP_cons_eq_if_modifyHead, slash,
        ih fun special => (List.not_mem_of_not_mem_cons (straight special))]

end Size

section Clean

variable {front rest : List Char}

/-- What is left at the end of an input. -/
def cleanedEnd (rest : List Char) : List Char :=
  (rest.rdropWhile isC0OrSpace).filter fun char => !isTabOrNewline char

theorem cleaned_append {first last : Char} (starts : front.head? = some first)
    (ends : front.getLast? = some last) (visible : isC0OrSpace first = false)
    (seen : isC0OrSpace last = false) (plain : ∀ char ∈ front, isTabOrNewline char = false)
    (rest : List Char) : cleaned (front ++ rest) = front ++ cleanedEnd rest := by
  obtain ⟨tail, rfl⟩ := List.head?_eq_some_iff.mp starts
  obtain ⟨body, shape⟩ := List.getLast?_eq_some_iff.mp ends
  have kept : (first :: tail ++ rest).dropWhile isC0OrSpace = first :: tail ++ rest := by
    rw [List.cons_append, List.dropWhile_cons, visible]
    rfl
  have dropped : (first :: tail ++ rest).rdropWhile isC0OrSpace =
      first :: tail ++ rest.rdropWhile isC0OrSpace := by
    rw [shape, List.append_assoc]
    unfold List.rdropWhile
    simp [List.dropWhile_append, seen]
  have whole : (first :: tail).filter (fun char => !isTabOrNewline char) = first :: tail :=
    List.filter_eq_self.mpr fun char member => by simp [plain char member]
  rw [cleaned, kept, dropped, List.filter_append, whole]
  rfl

theorem cleanedEnd_sublist (rest : List Char) : (cleanedEnd rest).Sublist rest :=
  List.filter_sublist.trans (List.rdropWhile_prefix _ _).sublist

variable {special : Bool} {text : List Char}

theorem pathSet_ascii {char : Char} (quiet : pathSet char = false) : char.toNat < 0x80 := by
  by_contra high
  have control : controlSet char = true := by
    unfold controlSet
    rw [Bool.or_eq_true, decide_eq_true_eq, decide_eq_true_eq]
    omega
  unfold pathSet at quiet
  rw [control] at quiet
  cases quiet

/-- Characters that a path keeps are visible, and no syntax. -/
theorem pathSet_quiet {char : Char} (quiet : pathSet char = false) :
    isC0OrSpace char = false ∧ isTabOrNewline char = false ∧ isCut char = false := by
  have ascii := pathSet_ascii quiet
  revert quiet
  apply @ascii_all char _ ascii
  decide +kernel

theorem cleanedEnd_quiet (quiet : ∀ char ∈ text, pathSet char = false) : cleanedEnd text = text := by
  have ends : text.rdropWhile isC0OrSpace = text := by
    rw [List.rdropWhile_eq_self_iff]
    intro nonempty
    rw [(pathSet_quiet (quiet _ (List.getLast_mem nonempty))).1]
    exact Bool.false_ne_true
  rw [cleanedEnd, ends, List.filter_eq_self]
  intro char member
  rw [(pathSet_quiet (quiet char member)).2.1]
  rfl

/-- Text that needs no escapes is split at its slashes. -/
theorem readSegments_quiet (quiet : ∀ char ∈ text, pathSet char = false)
    (straight : special = true → '\\' ∉ text) : readSegments special text = text.splitOn '/' := by
  have encoded : ∀ part ∈ text.splitOn '/', encode pathSet part = part := by
    intro part member
    apply encode_plain
    intro char inside
    rw [List.splitOn_eq_splitOnP] at member
    have among : char ∈ text := by
      by_contra absent
      exact not_mem_splitOnP absent member inside
    exact quiet char among
  rw [readSegments_eq (fun char member => (pathSet_quiet (quiet char member)).2.2) straight]
  exact (List.map_congr_left encoded).trans (List.map_id _)

/-- The URL of a file without a host. -/
theorem parse_file (hosts : HostParser) (body : List Char) :
    parse hosts ("file:///".toList ++ body) =
      some ⟨"file".toList, some [], none,
        .list (closeAll true [] (readSegments true (cleanedEnd body)))⟩ := by
  have text : "file:///".toList = ['f', 'i', 'l', 'e', ':', '/', '/', '/'] := by simp
  have name : "file".toList = ['f', 'i', 'l', 'e'] := by simp
  have input : cleaned ("file:///".toList ++ body) =
      ['f', 'i', 'l', 'e', ':', '/', '/', '/'] ++ cleanedEnd body := by
    rw [text]
    exact cleaned_append rfl rfl (by decide) (by decide) (by simp [isTabOrNewline]) body
  have scheme : splitScheme (cleaned ("file:///".toList ++ body)) =
      some (['f', 'i', 'l', 'e'], '/' :: '/' :: '/' :: cleanedEnd body) := by
    rw [input]
    rfl
  unfold parse
  rw [scheme, name]
  simp only [if_true]
  have host : fileState hosts ('/' :: '/' :: '/' :: cleanedEnd body) =
      fileHostState hosts ('/' :: cleanedEnd body) := rfl
  rw [host]
  have start : fileHostState hosts ('/' :: cleanedEnd body) =
      some ⟨"file".toList, some [], none,
        .list (pathState true true [] [] (cleanedEnd body))⟩ := rfl
  rw [start, name, pathState_eq]
  cases readSegments true (cleanedEnd body) <;> rfl

end Clean

end Url
