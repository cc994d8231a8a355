import AgentTranscript.Library.Delimited
import AgentTranscript.Library.UrlPath

/-!
URLs with an authority: credentials, which are dropped, a host without a port, and a path.
-/

set_option autoImplicit false

namespace Url

open Percent

section Clean

variable {front rest : List Char}

/-- Only the end of an input is trimmed when it starts with a visible character, and the part
in front ends with one. -/
theorem cleaned_front {first last : Char} (starts : front.head? = some first)
    (ends : front.getLast? = some last) (visible : isC0OrSpace first = false)
    (seen : isC0OrSpace last = false) (rest : List Char) :
    cleaned (front ++ rest) = (front.filter fun char => !isTabOrNewline char) ++ cleanedEnd rest := by
  obtain ⟨tail, rfl⟩ := List.head?_eq_some_iff.mp starts
  obtain ⟨body, shape⟩ := List.getLast?_eq_some_iff.mp ends
  have kept : (first :: tail ++ rest).dropWhile isC0OrSpace = first :: tail ++ rest := by
    rw [List.cons_append, List.dropWhile_cons, visible]
    rfl
  have dropped : (first :: tail ++ rest).rdropWhile isC0OrSpace =
      first :: tail ++ rest.rdropWhile isC0OrSpace := by
    rw [shape, List.append_assoc]
    unfold List.rdropWhile
    simp [List.dropWhile_append, seen]
  rw [cleaned, kept, dropped, List.filter_append]
  rfl

end Clean

section Paths

variable {special : Bool} {body : List Char}

/-- The segments that are read after the slash that ends a host. -/
def pathSegments (special : Bool) (body : List Char) : List Segment :=
  closeAll false [] (readSegments special (cleanedEnd body))

theorem pathSegments_chars (special : Bool) (body : List Char) :
    ∀ segment ∈ pathSegments special body, ∀ char ∈ segment,
      pathSet char = false ∧ isSlash special char = false := by
  apply closeAll_all
  · intro char member
    cases member
  · intro segment held
    unfold normalizeDrive
    split
    · rename_i letter mark
      split
      · have colon : pathSet ':' = false ∧ isSlash special ':' = false := by
          cases special <;> decide
        have first := held letter List.mem_cons_self
        simp only [List.forall_mem_cons, List.not_mem_nil, false_implies, implies_true, and_true]
        exact ⟨first, colon⟩
      · exact held
    · exact held
  · intro other member
    cases member
  · intro segment member _ _
    obtain ⟨part, among, rfl⟩ := List.mem_map.mp member
    apply encode_all
    · intro char inside plain
      exact ⟨plain, separates_of_mem_splitOnP among char inside⟩
    · cases special <;> decide
    · cases special <;> decide

theorem pathSegments_quiet (quiet : ∀ char ∈ body, pathSet char = false)
    (straight : special = true → '\\' ∉ body)
    (plain : ∀ part ∈ body.splitOn '/', isSingleDot part = false ∧ isDoubleDot part = false) :
    (Path.list (pathSegments special body)).text = '/' :: body := by
  unfold pathSegments
  rw [cleanedEnd_quiet quiet, readSegments_quiet quiet straight,
    closeAll_plain (List.splitOn_ne_nil _ _) plain (by simp),
    List.nil_append]
  exact Delimited.splitOn_flatMap '/' body

/-- Dots in a path do not stay. -/
theorem pathSegments_plain (quiet : ∀ char ∈ body, pathSet char = false)
    (straight : special = true → '\\' ∉ body)
    (whole : body.length < (Path.list (pathSegments special body)).text.length) :
    ∀ part ∈ body.splitOn '/', isSingleDot part = false ∧ isDoubleDot part = false := by
  unfold pathSegments at whole
  rw [cleanedEnd_quiet quiet, readSegments_quiet quiet straight] at whole
  refine (closeAll_shorter [] (body.splitOn '/')).resolve_right fun shorter => ?_
  have full : (Path.list ([] ++ body.splitOn '/')).text = '/' :: body :=
    Delimited.splitOn_flatMap '/' body
  rw [full, List.length_cons] at shorter
  omega

variable {suffix : List Char}

/-- An ending after which no segment is a dot segment. -/
structure NameSuffix (suffix : List Char) : Prop where
  nonempty : suffix ≠ []
  quiet : ∀ char ∈ suffix, pathSet char = false ∧ isSlash true char = false
  named : ∀ segment, isSingleDot (segment ++ suffix) = false ∧
    isDoubleDot (segment ++ suffix) = false

theorem NameSuffix.unslashed (named : NameSuffix suffix) (special : Bool) :
    ∀ char ∈ suffix, isSlash special char = false := by
  intro char member
  have inside := (named.quiet char member).2
  unfold isSlash at inside ⊢
  cases special with
  | true => exact inside
  | false =>
      rw [Bool.or_eq_false_iff] at inside
      simp [inside.1]

theorem cleanedEnd_append {last : Char} (ends : suffix.getLast? = some last)
    (visible : isC0OrSpace last = false) (plain : ∀ char ∈ suffix, isTabOrNewline char = false)
    (body : List Char) : cleanedEnd (body ++ suffix) =
      (body.filter fun char => !isTabOrNewline char) ++ suffix := by
  obtain ⟨init, shape⟩ := List.getLast?_eq_some_iff.mp ends
  have kept : (body ++ suffix).rdropWhile isC0OrSpace = body ++ suffix := by
    rw [shape, ← List.append_assoc, List.rdropWhile_concat_neg _ _ _ (by simp [visible])]
  have whole : suffix.filter (fun char => !isTabOrNewline char) = suffix :=
    List.filter_eq_self.mpr fun char member => by simp [plain char member]
  rw [cleanedEnd, kept, List.filter_append, whole]

/-- The last segment of an input that is not cut. -/
theorem readSegments_append {front tail : List Char}
    (uncut : ∀ char ∈ front, isCut char = false)
    (whole : ∀ char ∈ tail, isSlash special char = false ∧ isCut char = false) :
    ∃ init last, readSegments special (front ++ tail) = init ++ [encode pathSet (last ++ tail)] ∧
      readSegments special (front ++ tail ++ ['/']) =
        init ++ [encode pathSet (last ++ tail), []] := by
  have kept : ∀ char ∈ front ++ tail, (!isCut char) = true := by
    intro char member
    rcases List.mem_append.mp member with before | after
    · rw [uncut char before]
      rfl
    · rw [(whole char after).2]
      rfl
  have slash : isSlash special '/' = true := by simp [isSlash]
  obtain ⟨init, last, -, parts⟩ := splitOnP_append
    (fun char member => (whole char member).1) front
  have bare : (front ++ tail).takeWhile (fun char => !isCut char) = front ++ tail :=
    List.takeWhile_eq_self_iff.mpr kept
  have slashed : (front ++ tail ++ ['/']).takeWhile (fun char => !isCut char) =
      front ++ tail ++ ['/'] := by
    rw [List.takeWhile_append_of_pos kept]
    rfl
  refine ⟨init.map (encode pathSet), last, ?_, ?_⟩
  · rw [readSegments, bare, parts, List.map_append]
    rfl
  · rw [readSegments, slashed, List.splitOnP_append_cons _ _ slash, parts]
    simp [encode]

theorem NameSuffix.cleaned (named : NameSuffix suffix) (body : List Char) :
    cleanedEnd (body ++ suffix) = (body.filter fun char => !isTabOrNewline char) ++ suffix ∧
      cleanedEnd (body ++ suffix ++ ['/']) =
        (body.filter fun char => !isTabOrNewline char) ++ suffix ++ ['/'] := by
  have plain : ∀ char ∈ suffix, isC0OrSpace char = false ∧ isTabOrNewline char = false :=
    fun char member => ⟨(pathSet_quiet (named.quiet char member).1).1,
      (pathSet_quiet (named.quiet char member).1).2.1⟩
  constructor
  · exact cleanedEnd_append (List.getLast?_eq_some_getLast named.nonempty)
      (plain _ (List.getLast_mem named.nonempty)).1 (fun char member => (plain char member).2) body
  · rw [List.append_assoc, List.append_assoc]
    apply cleanedEnd_append List.getLast?_concat (by decide)
    intro char member
    rcases List.mem_append.mp member with inside | last
    · exact (plain char inside).2
    · rw [List.mem_singleton.mp last]
      decide

/-- A segment with such an ending is kept, with a slash behind it or without. -/
theorem pathSegments_suffixed (named : NameSuffix suffix) {front tail : List Char}
    (uncut : ∀ char ∈ front, isCut char = false)
    (whole : ∀ char ∈ tail, isSlash special char = false ∧ isCut char = false) :
    ∃ init last, pathSegments special (front ++ tail ++ suffix) =
        init ++ [encode pathSet (last ++ (tail.filter fun char => !isTabOrNewline char)) ++ suffix] ∧
      pathSegments special (front ++ tail ++ suffix ++ ['/']) =
        init ++ [encode pathSet (last ++ (tail.filter fun char => !isTabOrNewline char)) ++ suffix,
          []] := by
  obtain ⟨bare, slashed⟩ := named.cleaned (front ++ tail)
  obtain ⟨init, last, parts, longer⟩ := @readSegments_append special
    (front.filter fun char => !isTabOrNewline char)
    ((tail.filter fun char => !isTabOrNewline char) ++ suffix)
    (fun char member => uncut char (List.mem_of_mem_filter member)) (by
      intro char member
      rcases List.mem_append.mp member with before | after
      · exact whole char (List.mem_of_mem_filter before)
      · exact ⟨named.unslashed special char after, (pathSet_quiet (named.quiet char after).1).2.2⟩)
  have encoded : encode pathSet (last ++ ((tail.filter fun char => !isTabOrNewline char) ++ suffix)) =
      encode pathSet (last ++ (tail.filter fun char => !isTabOrNewline char)) ++ suffix := by
    have kept : encode pathSet suffix = suffix :=
      encode_plain fun char member => (named.quiet char member).1
    rw [← List.append_assoc]
    conv_rhs => rw [← kept]
    exact List.flatMap_append
  rw [encoded] at parts longer
  have dotless := named.named (encode pathSet
    (last ++ (tail.filter fun char => !isTabOrNewline char)))
  have empty : isSingleDot [] = false ∧ isDoubleDot [] = false := ⟨rfl, rfl⟩
  refine ⟨init.foldl (closeSegment false true) [], last, ?_, ?_⟩
  · rw [pathSegments, bare, List.filter_append, List.append_assoc, parts,
      closeAll_append init (List.cons_ne_nil _ _), closeAll_plain (List.cons_ne_nil _ _) _ (by simp)]
    exact fun other member => List.mem_singleton.mp member ▸ dotless
  · rw [pathSegments, slashed, List.filter_append, List.append_assoc _ _ suffix, longer,
      closeAll_append init (List.cons_ne_nil _ _),
      closeAll_plain (List.cons_ne_nil _ _) _ (by simp)]
    exact List.forall_mem_cons.mpr ⟨dotless, fun other member =>
      List.mem_singleton.mp member ▸ empty⟩

/-- A slash behind such an ending only adds a slash. -/
theorem pathSegments_slash (named : NameSuffix suffix) (special : Bool) (body : List Char) :
    pathSegments special (body ++ suffix ++ ['/']) = pathSegments special (body ++ suffix) ∨
      pathSegments special (body ++ suffix ++ ['/']) =
        pathSegments special (body ++ suffix) ++ [[]] := by
  by_cases uncut : ∀ char ∈ body, isCut char = false
  · obtain ⟨init, last, bare, slashed⟩ := @pathSegments_suffixed special _ named body [] uncut
      (by simp)
    rw [List.append_nil] at bare slashed
    refine .inr ?_
    rw [bare, slashed]
    simp
  · refine .inl ?_
    have cut : ∀ rest : List Char,
        readSegments special ((body.filter fun char => !isTabOrNewline char) ++ rest) =
          readSegments special (body.filter fun char => !isTabOrNewline char) := by
      intro rest
      unfold readSegments
      rw [List.takeWhile_append, if_neg]
      intro full
      have whole := List.takeWhile_eq_self_iff.mp
        ((List.takeWhile_prefix _).eq_of_length full)
      apply uncut
      intro char member
      by_contra cut
      rw [Bool.not_eq_false] at cut
      have kept : isTabOrNewline char = false := by
        simp only [isCut, Bool.or_eq_true, decide_eq_true_eq] at cut
        rcases cut with rfl | rfl <;> rfl
      have inside := whole char (List.mem_filter.mpr ⟨member, by simp [kept]⟩)
      rw [cut] at inside
      cases inside
    obtain ⟨bare, slashed⟩ := named.cleaned body
    rw [pathSegments, pathSegments, bare, slashed, List.append_assoc, cut, cut]

end Paths

section Host

/-- The characters of domain names. -/
def isDomainChar (char : Char) : Bool :=
  char.isAlphanum || char = '-' || char = '.'

variable {char : Char} {host : List Char}

theorem isDomainChar_plain (domain : isDomainChar char = true) :
    (endsAuthority true char = false ∧ isTabOrNewline char = false) ∧
      char ∉ ['@', ':', '[', ']'] := by
  have ascii : char.toNat < 0x80 := by
    unfold isDomainChar at domain
    rw [Bool.or_eq_true, Bool.or_eq_true, decide_eq_true_eq, decide_eq_true_eq] at domain
    rcases domain with (word | rfl) | rfl
    · exact isAlphanum_ascii word
    · decide
    · decide
  revert domain
  apply @ascii_all char _ ascii
  decide +kernel

theorem splitPort_domain (domain : ∀ char ∈ host, isDomainChar char = true) :
    splitPort false host = (host, none) := by
  induction host with
  | nil => rfl
  | cons char rest ih =>
      have plain := (isDomainChar_plain (domain char List.mem_cons_self)).2
      simp only [List.mem_cons, List.not_mem_nil, or_false, not_or] at plain
      obtain ⟨-, colon, opens, closes⟩ := plain
      have later := ih fun other member => domain other (List.mem_cons_of_mem char member)
      simp [splitPort, colon, opens, closes, later]

end Host

section Authority

variable {special : Bool} {before host rest : List Char}

theorem endsAuthority_of_special {char : Char} (inside : endsAuthority true char = false)
    (special : Bool) : endsAuthority special char = false := by
  cases special with
  | true => exact inside
  | false =>
      simp only [endsAuthority, isSlash, Bool.true_and, Bool.false_and, Bool.or_false,
        Bool.or_eq_false_iff] at inside ⊢
      exact ⟨inside.1.1, inside.2⟩

/-- What stands before a host: nothing, or credentials with an at sign. -/
structure Credentials (before : List Char) : Prop where
  ended : before = [] ∨ ∃ text, before = text ++ ['@']
  inside : ∀ char ∈ before, endsAuthority true char = false

theorem Credentials.filter (credentials : Credentials before) :
    Credentials (before.filter fun char => !isTabOrNewline char) := by
  refine ⟨?_, fun char member => credentials.inside char (List.mem_of_mem_filter member)⟩
  rcases credentials.ended with rfl | ⟨text, rfl⟩
  · exact .inl rfl
  · refine .inr ⟨text.filter fun char => !isTabOrNewline char, ?_⟩
    rw [List.filter_append]
    rfl

theorem dropCredentials_host (credentials : Credentials before)
    (domain : ∀ char ∈ host, isDomainChar char = true) :
    dropCredentials (before ++ host) = host := by
  have own : ∀ char ∈ host.reverse, decide (char ≠ '@') = true := by
    intro char member
    have plain := (isDomainChar_plain (domain char (List.mem_reverse.mp member))).2
    rw [decide_eq_true_iff]
    rintro rfl
    exact plain (by simp)
  have stop : before.reverse.takeWhile (· ≠ '@') = [] := by
    rcases credentials.ended with rfl | ⟨text, rfl⟩
    · rfl
    · rw [List.reverse_append]
      rfl
  rw [dropCredentials, List.rtakeWhile, List.reverse_append, List.takeWhile_append_of_pos own, stop,
    List.append_nil, List.reverse_reverse]

/-- An authority is read up to its slash. -/
theorem authorityState_path (hosts : HostParser) (scheme : List Char)
    (credentials : Credentials before) (nonempty : host ≠ [])
    (domain : ∀ char ∈ host, isDomainChar char = true) (rest : List Char) :
    authorityState hosts scheme (before ++ host ++ '/' :: rest) =
      (hosts (isSpecial scheme) host).map fun parsed => ⟨scheme, some parsed, none,
        .list (closeAll false [] (readSegments (isSpecial scheme) rest))⟩ := by
  have inside : ∀ char ∈ before ++ host, (!endsAuthority (isSpecial scheme) char) = true := by
    intro char member
    rw [Bool.not_eq_true']
    apply endsAuthority_of_special
    rcases List.mem_append.mp member with credential | own
    · exact credentials.inside char credential
    · exact (isDomainChar_plain (domain char own)).1.1
  have slash : isSlash (isSpecial scheme) '/' = true := by simp [isSlash]
  have taken : (before ++ host ++ '/' :: rest).takeWhile
      (fun char => !endsAuthority (isSpecial scheme) char) = before ++ host := by
    rw [List.takeWhile_append_of_pos inside, List.takeWhile_cons_of_neg, List.append_nil]
    simp [endsAuthority, slash]
  have dropped : (before ++ host ++ '/' :: rest).dropWhile
      (fun char => !endsAuthority (isSpecial scheme) char) = '/' :: rest := by
    rw [List.dropWhile_append_of_pos inside, List.dropWhile_cons_of_neg]
    simp [endsAuthority, slash]
  have path : pathStartState (isSpecial scheme) false ('/' :: rest) =
      closeAll false [] (readSegments (isSpecial scheme) rest) := by
    rw [pathStartState, if_pos slash, pathState_eq]
    cases readSegments (isSpecial scheme) rest <;> rfl
  have filled : host.isEmpty = false := by simpa using nonempty
  have port : parsePort scheme [] = some none := rfl
  simp only [authorityState, taken, dropped, dropCredentials_host credentials domain,
    splitPort_domain domain, nonempty, and_false, if_false, Option.isSome_none, Bool.false_eq_true,
    parseHost, filled, Option.getD_none, port, path]
  cases hosts (isSpecial scheme) host <;> rfl

/-- The schemes of remotes. -/
def remoteSchemes : List (List Char) :=
  ["http".toList, "https".toList, "ssh".toList, "git".toList]

theorem remoteSchemes_cases {scheme : List Char} (known : scheme ∈ remoteSchemes) :
    scheme = ['h', 't', 't', 'p'] ∨ scheme = ['h', 't', 't', 'p', 's'] ∨
      scheme = ['s', 's', 'h'] ∨ scheme = ['g', 'i', 't'] := by
  simpa [remoteSchemes] using known

theorem splitScheme_remote {scheme : List Char} (known : scheme ∈ remoteSchemes)
    (rest : List Char) : splitScheme (scheme ++ ':' :: rest) = some (scheme, rest) := by
  rcases remoteSchemes_cases known with rfl | rfl | rfl | rfl <;> rfl

/-- A URL with a domain and without a port. -/
theorem parse_authority (hosts : HostParser) {scheme : List Char} (known : scheme ∈ remoteSchemes)
    (credentials : Credentials before) (nonempty : host ≠ [])
    (domain : ∀ char ∈ host, isDomainChar char = true) (body : List Char) :
    parse hosts (scheme ++ [':', '/', '/'] ++ before ++ host ++ ['/'] ++ body) =
      (hosts (isSpecial scheme) host).map fun parsed => ⟨scheme, some parsed, none,
        .list (pathSegments (isSpecial scheme) body)⟩ := by
  obtain ⟨first, starts, visible, whole⟩ : ∃ first, scheme.head? = some first ∧
      isC0OrSpace first = false ∧ ∀ char ∈ scheme, isTabOrNewline char = false := by
    rcases remoteSchemes_cases known with rfl | rfl | rfl | rfl <;>
      exact ⟨_, rfl, by decide, by simp [isTabOrNewline]⟩
  have kept : host.filter (fun char => !isTabOrNewline char) = host :=
    List.filter_eq_self.mpr fun char member => by
      simp [(isDomainChar_plain (domain char member)).1.2]
  have named : scheme.filter (fun char => !isTabOrNewline char) = scheme :=
    List.filter_eq_self.mpr fun char member => by simp [whole char member]
  have input : cleaned (scheme ++ [':', '/', '/'] ++ before ++ host ++ ['/'] ++ body) =
      scheme ++ ':' :: '/' :: '/' :: ((before.filter fun char => !isTabOrNewline char) ++ host ++
        '/' :: cleanedEnd body) := by
    have front : (scheme ++ [':', '/', '/'] ++ before ++ host ++ ['/']).head? = some first := by
      simp [starts]
    have back : (scheme ++ [':', '/', '/'] ++ before ++ host ++ ['/']).getLast? = some '/' :=
      List.getLast?_concat
    rw [cleaned_front front back visible (by decide)]
    simp only [List.filter_append, kept, named]
    simp [isTabOrNewline]
  have notFile : scheme ≠ "file".toList := by
    rcases remoteSchemes_cases known with rfl | rfl | rfl | rfl <;> simp
  have filtered := credentials.filter
  generalize (before.filter fun char => !isTabOrNewline char) = inner at input filtered
  have parsed := authorityState_path hosts scheme filtered nonempty domain (cleanedEnd body)
  have slashes : ('/' :: '/' :: (inner ++ host ++ '/' :: cleanedEnd body)).dropWhile
      (isSlash true) = inner ++ host ++ '/' :: cleanedEnd body := by
    rw [List.dropWhile_cons_of_pos rfl, List.dropWhile_cons_of_pos rfl]
    obtain ⟨char, tail, shape⟩ := List.exists_cons_of_ne_nil
      (List.append_ne_nil_of_right_ne_nil inner nonempty)
    have inside : endsAuthority true char = false := by
      have member : char ∈ inner ++ host := shape ▸ List.mem_cons_self
      rcases List.mem_append.mp member with credential | own
      · exact filtered.inside char credential
      · exact (isDomainChar_plain (domain char own)).1.1
    rw [endsAuthority, Bool.or_eq_false_iff] at inside
    rw [shape, List.cons_append, List.dropWhile_cons_of_neg (by simp [inside.1])]
  rw [parse, input, splitScheme_remote known]
  simp only [if_neg notFile, slashes]
  split
  · exact parsed
  · exact parsed

end Authority

end Url
