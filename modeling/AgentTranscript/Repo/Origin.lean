import AgentTranscript.Library.UrlAuthority
import AgentTranscript.Repo.Cwd

/-!
The repository key of a remote. An scp-like remote is cut by hand and its path is kept as
it is. A URL goes through the URL parser, which encodes some characters of the path, cuts
it at others and resolves its dots.
-/

set_option autoImplicit false

namespace AgentTranscript

section Definitions

/-- `str::contains`. -/
def containsText (text part : String) : Bool :=
  part.toList <:+: text.toList

/-- `trim_matches` of a character. -/
def trimMatches (text : String) (mark : Char) : String :=
  String.ofList ((text.toList.dropWhile (· = mark)).rdropWhile (· = mark))

def toAsciiLowercase (text : String) : String :=
  String.ofList (text.toList.map Char.toLower)

def finish (host : String) (port : Option Nat) (path : String) : Except String String :=
  let path := trimMatches path '/'
  let path := (stripSuffix path ".git").getD path
  if host = "" ∨ path = "" ∨ ' ' ∈ path.toList then
    .error s!"origin URL does not identify a repository (host `{host}`, path `{path}`)"
  else
    match port with
    | some port => .ok s!"https://{host}:{port}/{path}"
    | none => .ok s!"https://{host}/{path}"

/-- `Url::host_str`: an empty host is none. -/
def hostStr (url : Url) : Option String :=
  (url.host.filter (· ≠ [])).map String.ofList

def normalizeUrl [UrlParser] (raw : String) : Except String String :=
  match UrlParser.parse raw with
  | .error error => .error s!"origin URL `{raw}` is invalid: {error}"
  | .ok url =>
      let scheme := String.ofList url.scheme
      if scheme ∈ ["https", "http", "ssh", "git"] then
        match hostStr url with
        | none => .error s!"origin URL `{raw}` has no host"
        | some host =>
            finish (toAsciiLowercase host) (url.port.filter (· ∉ [22, 80, 443]))
              (String.ofList url.path.text)
      else .error s!"origin URL `{raw}` uses unsupported scheme `{scheme}`"

def normalizeScp (raw : String) : Except String String :=
  match splitOnce raw ':' with
  | none => .error s!"origin URL `{raw}` is not a git remote"
  | some (hostPart, path) =>
      let host := ((rsplitOnce hostPart '@').map Prod.snd).getD hostPart
      finish (toAsciiLowercase host) none path

def normalizeRemoteUrl [UrlParser] (raw : String) : Except String String :=
  let raw := trim raw
  if raw = "" then .error "origin URL is empty"
  else if containsText raw "://" then normalizeUrl raw
  else normalizeScp raw

/-- A host that the URL parser reads as a domain. -/
structure HostName (hosts : Url.HostParser) (host : String) : Prop where
  nonempty : host ≠ ""
  domain : ∀ char ∈ host.toList, Url.isDomainChar char = true
  special : hosts true host.toList = some (host.toList.map Char.toLower)
  other : hosts false host.toList = some host.toList

/-- A user name or a password as URLs have it: nothing in it ends the authority. -/
def UserInfo (text : String) : Prop :=
  ∀ char ∈ text.toList, Url.endsAuthority true char = false

/-- The path of a repository on a host. -/
structure RemotePath (path : String) : Prop where
  nonempty : path ≠ ""
  starts : path.toList.head? ≠ some '/'
  ends : path.toList.getLast? ≠ some '/'
  parts : ∀ part ∈ path.toList.splitOn '/', part ≠ ['.'] ∧ part ≠ ['.', '.']
  bare : endsWith path ".git" = false

/-- The ways to write one remote. -/
def remoteForms (user password host path : String) : List String :=
  ["git@" ++ host ++ ":" ++ path,
    "git@" ++ host ++ ":" ++ path ++ ".git",
    "ssh://git@" ++ host ++ "/" ++ path ++ ".git",
    "https://" ++ host ++ "/" ++ path,
    "https://" ++ user ++ ":" ++ password ++ "@" ++ host ++ "/" ++ path ++ ".git",
    "http://" ++ host ++ "/" ++ path ++ ".git/",
    "git://" ++ host ++ "/" ++ path]

/-- One key for all, or an error for each. -/
def SameResult (results : List (Except String String)) : Prop :=
  (∃ key, ∀ result ∈ results, result = .ok key) ∨
    ∀ result ∈ results, ∃ error, result = .error error

/-- A path that both readers leave as it is. -/
structure PlainRemote (path : String) : Prop where
  scp : containsText path "://" = false
  quiet : ∀ char ∈ path.toList, Url.pathSet char = false ∧ char ≠ '\\'
  dots : ∀ part ∈ path.toList.splitOn '/',
    Url.isSingleDot part = false ∧ Url.isDoubleDot part = false

/-- The name that is left of a path. -/
def repoName (path : List Char) : List Char :=
  let kept := (path.dropWhile (· = '/')).rdropWhile (· = '/')
  (".git".toList.isSuffixOf? kept).getD kept

/-- What the URL rules make of a text after a host names no repository. -/
def NamesNothing (special : Bool) (body : List Char) : Prop :=
  repoName (Url.Path.list (Url.pathSegments special body)).text = []

def trimEnd (text : String) : String :=
  String.ofList (text.toList.rdropWhile isWhitespace)

/-- A path that neither reader takes for a repository. -/
structure Rejected (path : String) : Prop where
  scp : containsText path "://" = true ∨ ' ' ∈ (trimEnd path).toList
  bare : ∀ special, NamesNothing special (trimEnd path).toList
  suffixed : ∀ special, NamesNothing special (path ++ ".git").toList

end Definitions

section Names

variable {path front back name : List Char} {char : Char}

/-- A name between slashes. -/
structure IsBare (name : List Char) : Prop where
  starts : name.head? ≠ some '/'
  ends : name.getLast? ≠ some '/'

theorem trimSlashes_bare (bare : IsBare name) (before : ∀ char ∈ front, char = '/')
    (after : ∀ char ∈ back, char = '/') :
    ((front ++ name ++ back).dropWhile (· = '/')).rdropWhile (· = '/') = name := by
  have opened : ∀ char ∈ front, decide (char = '/') = true :=
    fun char member => decide_eq_true (before char member)
  have closed : ∀ char ∈ back.reverse, decide (char = '/') = true :=
    fun char member => decide_eq_true (after char (List.mem_reverse.mp member))
  rw [List.append_assoc, List.dropWhile_append_of_pos opened]
  cases name with
  | nil =>
      rw [List.nil_append, List.dropWhile_eq_nil_iff.mpr fun char member =>
        decide_eq_true (after char member), List.rdropWhile_nil]
  | cons first rest =>
      have start : first ≠ '/' := fun slash => bare.starts (congrArg some slash)
      have kept : (first :: rest).rdropWhile (· = '/') = first :: rest := by
        rw [List.rdropWhile_eq_self_iff]
        intro nonempty slash
        rw [decide_eq_true_iff] at slash
        apply bare.ends
        rw [List.getLast?_eq_some_getLast nonempty, slash]
      rw [List.cons_append, List.dropWhile_cons_of_neg (by simp [start]), ← List.cons_append]
      unfold List.rdropWhile at kept ⊢
      rw [List.reverse_append, List.dropWhile_append_of_pos closed, kept]

theorem repoName_bare (bare : IsBare name) (plain : ¬".git".toList <:+ name)
    (before : ∀ char ∈ front, char = '/') (after : ∀ char ∈ back, char = '/') :
    repoName (front ++ name ++ back) = name := by
  unfold repoName
  rw [trimSlashes_bare bare before after]
  dsimp only
  cases shape : ".git".toList.isSuffixOf? name with
  | none => rfl
  | some rest => exact absurd ⟨rest, List.isSuffixOf?_eq_some_iff_append_eq.mp shape⟩ plain

theorem IsBare.suffixed (bare : IsBare name) : IsBare (name ++ ".git".toList) := by
  constructor
  · cases name with
    | nil => simp
    | cons first rest => exact bare.starts
  · simp [List.getLast?_append]

theorem repoName_suffixed (bare : IsBare name) (before : ∀ char ∈ front, char = '/')
    (after : ∀ char ∈ back, char = '/') :
    repoName (front ++ (name ++ ".git".toList) ++ back) = name := by
  unfold repoName
  rw [trimSlashes_bare bare.suffixed before after]
  dsimp only
  rw [List.isSuffixOf?_eq_some_iff_append_eq.mpr rfl, Option.getD_some]

/-- A path is its name, perhaps with the suffix, between slashes. -/
theorem repoName_shape (path : List Char) : ∃ front kept back, path = front ++ kept ++ back ∧
    (∀ char ∈ front ++ back, char = '/') ∧ IsBare kept ∧
      (kept = repoName path ∨ kept = repoName path ++ ".git".toList) := by
  have slashes : ∀ {chars : List Char}, ∀ char ∈ chars.takeWhile (· = '/'), char = '/' := by
    intro chars char member
    have slash := List.mem_takeWhile_imp member
    rwa [decide_eq_true_iff] at slash
  have bare : IsBare ((path.dropWhile (· = '/')).rdropWhile (· = '/')) := by
    constructor
    · intro slash
      have first := List.head?_dropWhile_not (fun char => decide (char = '/')) path
      obtain ⟨rest, shape⟩ := List.head?_eq_some_iff.mp slash
      obtain ⟨back, whole⟩ := List.rdropWhile_prefix (fun char => decide (char = '/'))
        (path.dropWhile (· = '/'))
      rw [← whole, shape] at first
      simp at first
    · intro slash
      have nonempty : (path.dropWhile (· = '/')).rdropWhile (· = '/') ≠ [] := by
        intro empty
        rw [empty] at slash
        cases slash
      have last := List.rdropWhile_last_not (fun char => decide (char = '/')) _ nonempty
      rw [List.getLast?_eq_some_getLast nonempty] at slash
      simp only [Option.some.injEq] at slash
      exact last (decide_eq_true slash)
  refine ⟨path.takeWhile (· = '/'), (path.dropWhile (· = '/')).rdropWhile (· = '/'),
    (path.dropWhile (· = '/')).rtakeWhile (· = '/'), ?_, ?_, bare, ?_⟩
  · rw [List.append_assoc, List.rdropWhile_append_rtakeWhile, List.takeWhile_append_dropWhile]
  · intro char member
    rcases List.mem_append.mp member with first | last
    · exact slashes char first
    · exact slashes char (List.mem_reverse.mp last)
  · unfold repoName
    dsimp only
    cases shape : ".git".toList.isSuffixOf?
        ((path.dropWhile (· = '/')).rdropWhile (· = '/')) with
    | none => exact .inl rfl
    | some rest => exact .inr (List.isSuffixOf?_eq_some_iff_append_eq.mp shape).symm

theorem mem_of_mem_repoName (member : char ∈ repoName path) : char ∈ path := by
  obtain ⟨front, kept, back, shape, -, -, either⟩ := repoName_shape path
  have inside : char ∈ kept := by
    rcases either with rfl | rfl
    · exact member
    · exact List.mem_append_left _ member
  rw [shape]
  exact List.mem_append_left _ (List.mem_append_right _ inside)

/-- Only slashes and the suffix are left out. -/
theorem mem_repoName (member : char ∈ path) (other : char ∉ "/.git".toList) :
    char ∈ repoName path := by
  obtain ⟨front, kept, back, shape, slashes, -, either⟩ := repoName_shape path
  have slash : char ≠ '/' := fun slash => other (by simp [slash])
  rw [shape, List.mem_append, List.mem_append] at member
  rcases member with (before | inside) | after
  · exact absurd (slashes char (List.mem_append_left _ before)) slash
  · rcases either with rfl | rfl
    · exact inside
    · refine (List.mem_append.mp inside).resolve_right fun suffix => other ?_
      have text : "/.git".toList = '/' :: ".git".toList := by simp
      rw [text]
      exact List.mem_cons_of_mem '/' suffix
  · exact absurd (slashes char (List.mem_append_right _ after)) slash

theorem length_repoName_le (path : List Char) : (repoName ('/' :: path)).length ≤ path.length := by
  obtain ⟨front, kept, back, shape, slashes, bare, either⟩ := repoName_shape ('/' :: path)
  have inside : (repoName ('/' :: path)).length ≤ kept.length := by
    rcases either with same | same
    · rw [← same]
    · rw [same]
      simp
  have size := congrArg List.length shape
  simp only [List.length_cons, List.length_append] at size
  cases front with
  | nil =>
      cases kept with
      | nil => simp only [List.length_nil] at inside; omega
      | cons first rest =>
          obtain ⟨rfl, -⟩ := List.cons_eq_cons.mp shape
          exact absurd rfl bare.starts
  | cons first rest =>
      rw [List.length_cons] at size
      omega

/-- A slash at the end of a path says nothing. -/
theorem repoName_slash (path : List Char) : repoName (path ++ ['/']) = repoName path := by
  obtain ⟨front, kept, back, shape, slashes, bare, -⟩ := repoName_shape path
  have before : ∀ char ∈ front, char = '/' :=
    fun char member => slashes char (List.mem_append_left _ member)
  have after : ∀ char ∈ back, char = '/' :=
    fun char member => slashes char (List.mem_append_right _ member)
  have still : ∀ char ∈ back ++ ['/'], char = '/' := by
    intro char member
    rcases List.mem_append.mp member with old | new
    · exact after char old
    · exact List.mem_singleton.mp new
  unfold repoName
  rw [shape, List.append_assoc _ back, trimSlashes_bare bare before still,
    trimSlashes_bare bare before after]

end Names

section Finish

variable {host path key : String}

theorem kept_eq (path : String) : (stripSuffix (trimMatches path '/') ".git").getD
    (trimMatches path '/') = String.ofList (repoName path.toList) := by
  unfold stripSuffix trimMatches repoName
  dsimp only
  generalize (path.toList.dropWhile (· = '/')).rdropWhile (· = '/') = kept
  rw [String.toList_ofList, String.toList_ofList]
  cases ['.', 'g', 'i', 't'].isSuffixOf? kept with
  | none => rfl
  | some rest => rfl

theorem finish_eq (host path : String) : ∃ error, finish host none path =
    if host = "" ∨ repoName path.toList = [] ∨ ' ' ∈ repoName path.toList then .error error
    else .ok ("https://" ++ host ++ "/" ++ String.ofList (repoName path.toList)) := by
  have empty : String.ofList (repoName path.toList) = "" ↔ repoName path.toList = [] := by
    rw [← String.toList_inj, String.toList_ofList]
    rfl
  unfold finish
  simp only [kept_eq, empty, String.toList_ofList, toString]
  split
  · exact ⟨_, rfl⟩
  · exact ⟨"", rfl⟩

theorem finish_ok_iff : finish host none path = .ok key ↔
    (host ≠ "" ∧ repoName path.toList ≠ [] ∧ ' ' ∉ repoName path.toList) ∧
      key = "https://" ++ host ++ "/" ++ String.ofList (repoName path.toList) := by
  obtain ⟨error, result⟩ := finish_eq host path
  rw [result]
  split
  · rename_i bad
    simp only [reduceCtorEq, false_iff, not_and]
    rintro ⟨named, filled, dense⟩
    exact absurd bad (by simp [named, filled, dense])
  · rename_i good
    rw [not_or, not_or] at good
    rw [Except.ok.injEq, eq_comm]
    exact ⟨fun same => ⟨good, same⟩, fun both => both.2⟩

theorem finish_error_iff (named : host ≠ "") : (∃ error, finish host none path = .error error) ↔
    repoName path.toList = [] ∨ ' ' ∈ repoName path.toList := by
  obtain ⟨error, result⟩ := finish_eq host path
  rw [result]
  split
  · rename_i bad
    exact ⟨fun _ => bad.resolve_left named, fun _ => ⟨error, rfl⟩⟩
  · rename_i good
    rw [not_or] at good
    simp [good.2]

end Finish

section Raw

variable {front body text : String}

theorem trimEnd_append {last : Char} (ends : front.toList.getLast? = some last)
    (seen : isWhitespace last = false) (rest : String) :
    trimEnd (front ++ rest) = front ++ trimEnd rest := by
  obtain ⟨init, shape⟩ := List.getLast?_eq_some_iff.mp ends
  have dropped : (front.toList ++ rest.toList).rdropWhile isWhitespace =
      front.toList ++ rest.toList.rdropWhile isWhitespace := by
    rw [shape]
    unfold List.rdropWhile
    simp [List.dropWhile_append, seen]
  apply String.toList_inj.mp
  unfold trimEnd
  rw [String.toList_append, String.toList_append, String.toList_ofList, String.toList_ofList,
    dropped]

theorem trim_append {first last : Char} (starts : front.toList.head? = some first)
    (ends : front.toList.getLast? = some last) (visible : isWhitespace first = false)
    (seen : isWhitespace last = false) (rest : String) :
    trim (front ++ rest) = front ++ trimEnd rest := by
  obtain ⟨tail, shape⟩ := List.head?_eq_some_iff.mp starts
  have kept : (front ++ rest).toList.dropWhile isWhitespace = (front ++ rest).toList := by
    rw [String.toList_append, shape, List.cons_append, List.dropWhile_cons, visible]
    rfl
  rw [← trimEnd_append ends seen, trim, kept]
  rfl

/-- The end that is trimmed is white space. -/
theorem trimEnd_shape (text : String) : ∃ blank : List Char,
    text.toList = (trimEnd text).toList ++ blank ∧ ∀ char ∈ blank, isWhitespace char = true := by
  refine ⟨text.toList.rtakeWhile isWhitespace, ?_, ?_⟩
  · unfold trimEnd
    rw [String.toList_ofList, List.rdropWhile_append_rtakeWhile]
  · intro char member
    exact List.mem_takeWhile_imp (List.mem_reverse.mp member)

theorem containsText_iff {part : String} :
    containsText text part = true ↔ part.toList <:+: text.toList := by
  unfold containsText
  rw [decide_eq_true_iff]

/-- The mark of a URL does not reach over an end without slashes. -/
theorem mark_append {chars blank : List Char} (whole : '/' ∉ blank) :
    "://".toList <:+: chars ++ blank ↔ "://".toList <:+: chars := by
  have mark : "://".toList = [':', '/', '/'] := by simp
  rw [mark]
  refine ⟨fun inside => ?_, fun inside => List.infix_append_of_infix_left inside⟩
  rcases List.infix_append_iff_ne_nil.mp inside with first | second | ⟨one, two, -, filled, cut, -, tail⟩
  · exact first
  · exact absurd (second.subset (by simp)) whole
  · have slash : '/' ∈ two := by
      have last := congrArg List.getLast? cut
      rw [List.getLast?_append_of_ne_nil _ filled] at last
      exact List.mem_of_getLast? last.symm
    exact absurd (tail.subset slash) whole

/-- Nor over a start without slashes, when none follows. -/
theorem mark_cons {chars rest : List Char} (whole : '/' ∉ chars) (starts : rest.head? ≠ some '/') :
    "://".toList <:+: chars ++ rest ↔ "://".toList <:+: rest := by
  have mark : "://".toList = [':', '/', '/'] := by simp
  rw [mark]
  refine ⟨fun inside => ?_, fun inside => List.infix_append_of_infix_right inside⟩
  rcases List.infix_append_iff_ne_nil.mp inside with first | second | ⟨one, two, filled, some, cut, head, tail⟩
  · exact absurd (first.subset (by simp)) whole
  · exact second
  · rcases List.cons_eq_append_iff.mp cut with ⟨rfl, -⟩ | ⟨more, rfl, slashes⟩
    · exact absurd rfl filled
    · cases more with
      | nil =>
          rw [List.nil_append] at slashes
          obtain ⟨back, shape⟩ := slashes ▸ tail
          exact absurd (congrArg List.head? shape.symm) starts
      | cons slash more =>
          obtain ⟨rfl, -⟩ := List.cons_eq_cons.mp slashes
          exact absurd (head.subset (by simp)) whole

end Raw

section Scp

variable {hosts : Url.HostParser} {host body : String}

theorem scp_trim (host body : String) :
    trim ("git@" ++ host ++ ":" ++ body) = "git@" ++ host ++ ":" ++ trimEnd body := by
  have starts : ("git@" ++ host ++ ":").toList.head? = some 'g' := by simp
  have ends : ("git@" ++ host ++ ":").toList.getLast? = some ':' := by
    have colon : ":".toList = [':'] := by simp
    rw [String.toList_append, colon, List.getLast?_concat]
  exact trim_append starts ends (by decide) (by decide) body

theorem scp_contains (domain : ∀ char ∈ host.toList, Url.isDomainChar char = true)
    (starts : body.toList.head? ≠ some '/') :
    containsText ("git@" ++ host ++ ":" ++ trimEnd body) "://" = containsText body "://" := by
  obtain ⟨blank, shape, white⟩ := trimEnd_shape body
  have whole : '/' ∉ ("git@" ++ host ++ ":").toList := by
    intro member
    simp only [String.toList_append, List.mem_append] at member
    rcases member with (user | name) | colon
    · simp at user
    · exact absurd (domain _ name) (by decide)
    · simp at colon
  have unslashed : '/' ∉ blank := fun slash => absurd (white _ slash) (by decide)
  have same : "://".toList <:+: ("git@" ++ host ++ ":" ++ trimEnd body).toList ↔
      "://".toList <:+: body.toList := by
    rw [← mark_cons whole starts, shape, ← List.append_assoc, mark_append unslashed,
      ← String.toList_append]
  rw [Bool.eq_iff_iff, containsText_iff, containsText_iff, same]

theorem normalizeScp_read (domain : ∀ char ∈ host.toList, Url.isDomainChar char = true)
    (body : String) : normalizeScp ("git@" ++ host ++ ":" ++ body) =
      finish (toAsciiLowercase host) none body := by
  have plain : ∀ char ∈ host.toList, char ∉ ['@', ':', '[', ']'] :=
    fun char member => (Url.isDomainChar_plain (domain char member)).2
  have colon : ':' ∉ ("git@" ++ host).toList := by
    rw [String.toList_append, List.mem_append, not_or]
    exact ⟨by simp, fun member => plain _ member (by simp)⟩
  have sign : '@' ∉ host.toList := fun member => plain _ member (by simp)
  have mark : ":" = String.singleton ':' := by simp
  have user : "git@" = "git" ++ String.singleton '@' := by simp
  have first := @splitOnce_append ("git@" ++ host) body ':' colon
  have second := @rsplitOnce_append "git" host '@' sign
  rw [← mark] at first
  rw [← user] at second
  unfold normalizeScp
  simp only [first, second, Option.map_some, Option.getD_some]

variable [UrlParser]

theorem scp_read (domain : ∀ char ∈ host.toList, Url.isDomainChar char = true)
    (starts : body.toList.head? ≠ some '/') (plain : containsText body "://" = false) :
    normalizeRemoteUrl ("git@" ++ host ++ ":" ++ body) =
      finish (toAsciiLowercase host) none (trimEnd body) := by
  have filled : "git@" ++ host ++ ":" ++ trimEnd body ≠ "" := by simp
  unfold normalizeRemoteUrl
  simp only [scp_trim, scp_contains domain starts, plain, normalizeScp_read domain, if_neg filled,
    Bool.false_eq_true, if_false]

/-- An scp-like remote with the mark of a URL has no scheme. -/
theorem scp_invalid (follows : UrlParser.Follows hosts)
    (domain : ∀ char ∈ host.toList, Url.isDomainChar char = true)
    (starts : body.toList.head? ≠ some '/') (marked : containsText body "://" = true) :
    ∃ error, normalizeRemoteUrl ("git@" ++ host ++ ":" ++ body) = .error error := by
  have scheme : Url.parse hosts ("git@" ++ host ++ ":" ++ trimEnd body).toList = none := by
    have user : "git@".toList = ['g', 'i', 't', '@'] := by simp
    have input : Url.cleaned ("git@" ++ host ++ ":" ++ trimEnd body).toList =
        ['g', 'i', 't', '@'] ++ Url.cleanedEnd ((host ++ ":" ++ trimEnd body).toList) := by
      rw [String.append_assoc, String.append_assoc, String.toList_append, ← String.append_assoc, user]
      exact Url.cleaned_front rfl rfl (by decide) (by decide) _
    rw [Url.parse, input]
    rfl
  have failed := follows ("git@" ++ host ++ ":" ++ trimEnd body)
  rw [scheme] at failed
  have filled : "git@" ++ host ++ ":" ++ trimEnd body ≠ "" := by simp
  unfold normalizeRemoteUrl
  simp only [scp_trim, scp_contains domain starts, marked, if_neg filled, if_true]
  unfold normalizeUrl
  cases parsed : UrlParser.parse ("git@" ++ host ++ ":" ++ trimEnd body) with
  | error message => exact ⟨_, rfl⟩
  | ok url =>
      rw [parsed] at failed
      cases failed

end Scp

section Url

variable {hosts : Url.HostParser} {scheme before host : String}

/-- The host of a URL, in lower case. -/
theorem HostName.read (name : HostName hosts host) (special : Bool) :
    ∃ parsed, hosts special host.toList = some parsed ∧ parsed ≠ [] ∧
      toAsciiLowercase (String.ofList parsed) = toAsciiLowercase host := by
  have filled : host.toList ≠ [] := fun empty => name.nonempty (String.toList_inj.mp empty)
  cases special with
  | true =>
      refine ⟨_, name.special, by simpa using name.nonempty, ?_⟩
      unfold toAsciiLowercase
      rw [String.toList_ofList, List.map_map]
      congr 1
      exact List.map_congr_left fun char _ => Char.toLower_toLower_eq_toLower char
  | false => exact ⟨_, name.other, filled, by rw [String.ofList_toList]⟩

theorem remoteScheme_mem (known : scheme ∈ ["https", "http", "ssh", "git"]) :
    scheme.toList ∈ Url.remoteSchemes := by
  simp only [List.mem_cons, List.not_mem_nil, or_false] at known
  rcases known with rfl | rfl | rfl | rfl <;> simp [Url.remoteSchemes]

theorem url_trim (known : scheme ∈ ["https", "http", "ssh", "git"]) (before host body : String) :
    trim (scheme ++ "://" ++ before ++ host ++ "/" ++ body) =
      scheme ++ "://" ++ before ++ host ++ "/" ++ trimEnd body := by
  obtain ⟨first, starts, visible⟩ : ∃ first, scheme.toList.head? = some first ∧
      isWhitespace first = false := by
    simp only [List.mem_cons, List.not_mem_nil, or_false] at known
    rcases known with rfl | rfl | rfl | rfl <;> exact ⟨_, by simp; rfl, by decide⟩
  have front : (scheme ++ "://" ++ before ++ host ++ "/").toList.head? = some first := by
    simp [starts]
  have back : (scheme ++ "://" ++ before ++ host ++ "/").toList.getLast? = some '/' := by
    have slash : "/".toList = ['/'] := by simp
    rw [String.toList_append, slash, List.getLast?_concat]
  exact trim_append front back visible (by decide) body

variable [UrlParser]

/-- A remote as a URL: its path is what the URL parser reads. -/
theorem url_read (follows : UrlParser.Follows hosts)
    (known : scheme ∈ ["https", "http", "ssh", "git"])
    (credentials : Url.Credentials before.toList) (name : HostName hosts host) (body : String) :
    normalizeRemoteUrl (scheme ++ "://" ++ before ++ host ++ "/" ++ body) =
      finish (toAsciiLowercase host) none (String.ofList (Url.Path.list
        (Url.pathSegments (Url.isSpecial scheme.toList) (trimEnd body).toList)).text) := by
  obtain ⟨parsed, hosted, nonempty, lower⟩ := name.read (Url.isSpecial scheme.toList)
  have filled : host.toList ≠ [] := fun empty => name.nonempty (String.toList_inj.mp empty)
  have read := follows (scheme ++ "://" ++ before ++ host ++ "/" ++ trimEnd body)
  have mark : "://".toList = [':', '/', '/'] := by simp
  have slash : "/".toList = ['/'] := by simp
  have text : (scheme ++ "://" ++ before ++ host ++ "/" ++ trimEnd body).toList =
      scheme.toList ++ [':', '/', '/'] ++ before.toList ++ host.toList ++ ['/'] ++
        (trimEnd body).toList := by
    simp only [String.toList_append, mark, slash]
  rw [text, Url.parse_authority hosts (remoteScheme_mem known) credentials filled name.domain,
    hosted, Option.map_some] at read
  have marked : containsText (scheme ++ "://" ++ before ++ host ++ "/" ++ trimEnd body) "://" =
      true := by
    rw [containsText_iff, text, mark]
    refine ⟨scheme.toList, before.toList ++ host.toList ++ ['/'] ++ (trimEnd body).toList, ?_⟩
    simp only [List.append_assoc]
  have visible : scheme ++ "://" ++ before ++ host ++ "/" ++ trimEnd body ≠ "" := by simp
  unfold normalizeRemoteUrl
  simp only [url_trim known, if_neg visible, marked, if_true]
  unfold normalizeUrl
  cases outcome : UrlParser.parse (scheme ++ "://" ++ before ++ host ++ "/" ++ trimEnd body) with
  | error message =>
      rw [outcome] at read
      cases read
  | ok url =>
      rw [outcome] at read
      obtain rfl := Option.some.inj read
      have named : hostStr ⟨scheme.toList, some parsed, none, .list (Url.pathSegments
          (Url.isSpecial scheme.toList) (trimEnd body).toList)⟩ =
          some (String.ofList parsed) := by
        unfold hostStr
        rw [Option.filter_some, if_pos (by simpa using nonempty)]
        rfl
      simp only [String.ofList_toList, if_pos known, named, lower]
      rfl

end Url

section Forms

variable {hosts : Url.HostParser} {user password host path key : String} {special : Bool}

theorem gitSuffix : Url.NameSuffix ".git".toList := by
  have text : ".git".toList = ['.', 'g', 'i', 't'] := by simp
  rw [text]
  refine ⟨List.cons_ne_nil _ _, by simp [Url.pathSet, Url.controlSet, Url.isSlash], ?_⟩
  intro segment
  have last : ((segment ++ ['.', 'g', 'i', 't']).map Char.toLower).getLast? = some 't' := by
    rw [List.map_append]
    exact List.getLast?_append_of_ne_nil _ (List.cons_ne_nil _ _)
  constructor
  · rw [Url.isSingleDot, decide_eq_false_iff_not]
    intro dot
    simp only [List.map_cons, List.map_nil, List.mem_cons, List.not_mem_nil, or_false] at dot
    rcases dot with same | same <;> rw [same] at last <;> simp at last
  · rw [Url.isDoubleDot, decide_eq_false_iff_not]
    intro dots
    simp only [List.map_cons, List.map_nil, List.mem_cons, List.not_mem_nil, or_false] at dots
    rcases dots with same | same | same | same <;> rw [same] at last <;> simp at last

/-- The path that the URL parser reads. -/
def urlText (special : Bool) (body : String) : List Char :=
  (Url.Path.list (Url.pathSegments special body.toList)).text

def urlResult (host : String) (special : Bool) (body : String) : Except String String :=
  finish (toAsciiLowercase host) none (String.ofList (urlText special body))

theorem urlText_cons (special : Bool) (body : String) :
    ∃ rest, urlText special body = '/' :: rest := by
  obtain ⟨first, others, shape⟩ := List.exists_cons_of_ne_nil
    (@Url.closeAll_ne_nil false [] _ (Url.readSegments_ne_nil special (Url.cleanedEnd body.toList)))
  unfold urlText Url.pathSegments
  rw [shape]
  exact ⟨_, rfl⟩

theorem urlText_chars {body : String} {char : Char} (member : char ∈ urlText special body) :
    Url.pathSet char = false ∧ (special = true → char ≠ '\\') := by
  obtain ⟨segment, among, inside⟩ := List.mem_flatMap.mp member
  rcases List.mem_cons.mp inside with rfl | within
  · exact ⟨rfl, fun _ => by decide⟩
  · obtain ⟨quiet, plain⟩ := Url.pathSegments_chars special _ segment among char within
    refine ⟨quiet, ?_⟩
    rintro rfl rfl
    cases plain

theorem lower_nonempty (named : host ≠ "") : toAsciiLowercase host ≠ "" := by
  intro empty
  apply named
  rw [← String.toList_inj, toAsciiLowercase, String.toList_ofList] at empty
  exact String.toList_inj.mp (List.map_eq_nil_iff.mp empty)

theorem urlText_dense (special : Bool) (body : String) :
    ' ' ∉ repoName (urlText special body) := by
  intro member
  have quiet := (urlText_chars (mem_of_mem_repoName member)).1
  cases quiet

theorem urlResult_ok_iff (named : host ≠ "") (body : String) :
    urlResult host special body = .ok key ↔ repoName (urlText special body) ≠ [] ∧
      key = "https://" ++ toAsciiLowercase host ++ "/" ++
        String.ofList (repoName (urlText special body)) := by
  have lower := lower_nonempty named
  have dense := urlText_dense special body
  unfold urlResult
  rw [finish_ok_iff, String.toList_ofList]
  exact ⟨fun both => ⟨both.1.2.1, both.2⟩, fun both => ⟨⟨lower, both.1, dense⟩, both.2⟩⟩

theorem urlResult_error_iff (named : host ≠ "") (body : String) :
    (∃ error, urlResult host special body = .error error) ↔ NamesNothing special body.toList := by
  have dense := urlText_dense special body
  unfold urlResult
  rw [finish_error_iff (lower_nonempty named), String.toList_ofList, or_iff_left dense]
  rfl

theorem trimEnd_of_ends {text : String} {last : Char} (ends : text.toList.getLast? = some last)
    (seen : isWhitespace last = false) : trimEnd text = text := by
  have whole := trimEnd_append ends seen ""
  have empty : trimEnd "" = "" := by simp [trimEnd]
  rwa [empty, String.append_empty] at whole

theorem trimEnd_git (path : String) : trimEnd (path ++ ".git") = path ++ ".git" ∧
    trimEnd (path ++ ".git/") = path ++ ".git/" := by
  have git : ".git".toList = ['.', 'g', 'i', 't'] := by simp
  have slashed : ".git/".toList = ['.', 'g', 'i', 't', '/'] := by simp
  have bare : (path ++ ".git").toList.getLast? = some 't' := by
    rw [String.toList_append, git]
    exact List.getLast?_append_of_ne_nil _ (List.cons_ne_nil _ _)
  have closed : (path ++ ".git/").toList.getLast? = some '/' := by
    rw [String.toList_append, slashed]
    exact List.getLast?_append_of_ne_nil _ (List.cons_ne_nil _ _)
  exact ⟨trimEnd_of_ends bare (by decide), trimEnd_of_ends closed (by decide)⟩

theorem UserInfo.credentials (account : UserInfo user) (secret : UserInfo password) :
    Url.Credentials (user ++ ":" ++ password ++ "@").toList := by
  have colon : ":".toList = [':'] := by simp
  have sign : "@".toList = ['@'] := by simp
  rw [String.toList_append, String.toList_append, String.toList_append, colon, sign]
  refine ⟨.inr ⟨_, rfl⟩, fun char member => ?_⟩
  simp only [List.mem_append, List.mem_singleton] at member
  rcases member with ((first | rfl) | second) | rfl
  · exact account char first
  · rfl
  · exact secret char second
  · rfl

variable [UrlParser]

theorem remoteForms_read (follows : UrlParser.Follows hosts) (name : HostName hosts host)
    (credentials : UserInfo user) (secret : UserInfo password) (path : String) :
    (remoteForms user password host path).map normalizeRemoteUrl =
      [normalizeRemoteUrl ("git@" ++ host ++ ":" ++ path),
        normalizeRemoteUrl ("git@" ++ host ++ ":" ++ (path ++ ".git")),
        urlResult host false (path ++ ".git"), urlResult host true (trimEnd path),
        urlResult host true (path ++ ".git"), urlResult host true (path ++ ".git/"),
        urlResult host false (trimEnd path)] := by
  have read : ∀ {scheme before : String}, scheme ∈ ["https", "http", "ssh", "git"] →
      Url.Credentials before.toList → ∀ body,
      normalizeRemoteUrl (scheme ++ "://" ++ before ++ host ++ "/" ++ body) =
        urlResult host (Url.isSpecial scheme.toList) (trimEnd body) :=
    fun known before body => url_read follows known before name body
  have none : Url.Credentials "".toList := ⟨.inl rfl, by simp⟩
  have git : Url.Credentials "git@".toList := by
    have text : "git@".toList = ['g', 'i', 't', '@'] := by simp
    rw [text]
    exact ⟨.inr ⟨['g', 'i', 't'], rfl⟩, by simp [Url.endsAuthority, Url.isSlash, Url.isCut]⟩
  have ssh := @read "ssh" "git@" (by simp) git (path ++ ".git")
  have https := @read "https" "" (by simp) none path
  have secured := @read "https" _ (by simp) (credentials.credentials secret) (path ++ ".git")
  have http := @read "http" "" (by simp) none (path ++ ".git/")
  have plain := @read "git" "" (by simp) none path
  obtain ⟨suffixed, slashed⟩ := trimEnd_git path
  have special : Url.isSpecial "https".toList = true ∧ Url.isSpecial "http".toList = true ∧
      Url.isSpecial "ssh".toList = false ∧ Url.isSpecial "git".toList = false := by
    simp [Url.isSpecial, Url.specialSchemes, List.lookup]
  obtain ⟨one, two, three, four⟩ := special
  rw [three, suffixed] at ssh
  rw [one] at https
  rw [one, suffixed] at secured
  rw [two, slashed] at http
  rw [four] at plain
  have sshForm : "ssh://git@" ++ host ++ "/" ++ path ++ ".git" =
      "ssh" ++ "://" ++ "git@" ++ host ++ "/" ++ (path ++ ".git") :=
    String.toList_inj.mp (by simp)
  have httpsForm : "https://" ++ host ++ "/" ++ path =
      "https" ++ "://" ++ "" ++ host ++ "/" ++ path := String.toList_inj.mp (by simp)
  have securedForm : "https://" ++ user ++ ":" ++ password ++ "@" ++ host ++ "/" ++ path ++ ".git" =
      "https" ++ "://" ++ (user ++ ":" ++ password ++ "@") ++ host ++ "/" ++ (path ++ ".git") :=
    String.toList_inj.mp (by simp)
  have httpForm : "http://" ++ host ++ "/" ++ path ++ ".git/" =
      "http" ++ "://" ++ "" ++ host ++ "/" ++ (path ++ ".git/") := String.toList_inj.mp (by simp)
  have plainForm : "git://" ++ host ++ "/" ++ path =
      "git" ++ "://" ++ "" ++ host ++ "/" ++ path := String.toList_inj.mp (by simp)
  rw [remoteForms, sshForm, httpsForm, securedForm, httpForm, plainForm,
    @String.append_assoc _ path]
  simp only [List.map_cons, List.map_nil, ssh, https, secured, http, plain]

end Forms

section Plain

variable {path : String}

theorem RemotePath.bareName (remote : RemotePath path) :
    IsBare path.toList ∧ path.toList ≠ [] ∧ ¬".git".toList <:+ path.toList := by
  refine ⟨⟨remote.starts, remote.ends⟩, ?_, ?_⟩
  · exact fun empty => remote.nonempty (String.toList_inj.mp empty)
  · rw [← List.isSuffixOf_iff_suffix]
    exact Bool.eq_false_iff.mp remote.bare

theorem isWhitespace_of_quiet {char : Char} (quiet : Url.pathSet char = false) :
    isWhitespace char = false := by
  have ascii := Url.pathSet_ascii quiet
  revert quiet
  apply @Url.ascii_all char _ ascii
  decide +kernel

theorem trimEnd_quiet (remote : RemotePath path)
    (quiet : ∀ char ∈ path.toList, Url.pathSet char = false) : trimEnd path = path := by
  have filled := remote.bareName.2.1
  exact trimEnd_of_ends (List.getLast?_eq_some_getLast filled)
    (isWhitespace_of_quiet (quiet _ (List.getLast_mem filled)))

theorem splitOn_suffixed (plain : PlainRemote path) :
    (∀ part ∈ (path.toList ++ ".git".toList).splitOn '/',
      Url.isSingleDot part = false ∧ Url.isDoubleDot part = false) ∧
    ∀ part ∈ (path.toList ++ ".git".toList ++ ['/']).splitOn '/',
      Url.isSingleDot part = false ∧ Url.isDoubleDot part = false := by
  obtain ⟨init, last, parts, longer⟩ := @Url.splitOnP_append Char (· == '/') ".git".toList (by simp)
    path.toList
  rw [← List.splitOn_eq_splitOnP] at parts longer
  have dots := plain.dots
  rw [parts] at dots
  have bare : ∀ part ∈ init ++ [last ++ ".git".toList],
      Url.isSingleDot part = false ∧ Url.isDoubleDot part = false := by
    intro part member
    rcases List.mem_append.mp member with before | final
    · exact dots part (List.mem_append_left _ before)
    · exact List.mem_singleton.mp final ▸ gitSuffix.named last
  rw [List.splitOn_append_cons_self, longer]
  refine ⟨bare, fun part member => ?_⟩
  rcases List.mem_append.mp member with before | final
  · exact bare part before
  · rw [List.splitOn_nil, List.mem_singleton] at final
    exact final ▸ ⟨rfl, rfl⟩

/-- A plain path is the name of its repository, with the suffix or without. -/
theorem PlainRemote.named (plain : PlainRemote path) (remote : RemotePath path) (special : Bool) :
    repoName (urlText special path) = path.toList ∧
      repoName (urlText special (path ++ ".git")) = path.toList ∧
      repoName (urlText special (path ++ ".git/")) = path.toList := by
  obtain ⟨bare, -, unsuffixed⟩ := remote.bareName
  obtain ⟨suffixed, slashed⟩ := splitOn_suffixed plain
  have slash : ∀ char ∈ ['/'], char = '/' := by simp
  have quiet : ∀ char ∈ path.toList ++ ".git".toList ++ ['/'],
      Url.pathSet char = false ∧ char ≠ '\\' := by
    intro char member
    rcases List.mem_append.mp member with inside | last
    · rcases List.mem_append.mp inside with name | git
      · exact plain.quiet char name
      · refine ⟨(gitSuffix.quiet char git).1, ?_⟩
        rintro rfl
        simp at git
    · exact List.mem_singleton.mp last ▸ ⟨rfl, by decide⟩
  have read : ∀ body : List Char, body <+: path.toList ++ ".git".toList ++ ['/'] →
      (∀ part ∈ body.splitOn '/', Url.isSingleDot part = false ∧ Url.isDoubleDot part = false) →
      (Url.Path.list (Url.pathSegments special body)).text = '/' :: body := by
    intro body start dots
    exact Url.pathSegments_quiet (fun char member => (quiet char (start.subset member)).1)
      (fun _ member => (quiet _ (start.subset member)).2 rfl) dots
  have text : ".git/".toList = ".git".toList ++ ['/'] := by simp
  unfold urlText
  refine ⟨?_, ?_, ?_⟩
  · rw [read _ ⟨".git".toList ++ ['/'], by rw [List.append_assoc]⟩ plain.dots]
    have name := @repoName_bare ['/'] [] path.toList bare unsuffixed slash (by simp)
    rwa [List.append_nil] at name
  · rw [String.toList_append, read _ ⟨['/'], rfl⟩ suffixed]
    have name := @repoName_suffixed ['/'] [] path.toList bare slash (by simp)
    rwa [List.append_nil] at name
  · rw [String.toList_append, text, ← List.append_assoc, read _ (List.prefix_refl _) slashed]
    exact @repoName_suffixed ['/'] ['/'] path.toList bare slash slash

theorem containsText_git (path : String) :
    containsText (path ++ ".git") "://" = containsText path "://" := by
  have same := @mark_append path.toList ".git".toList (by simp)
  rw [Bool.eq_iff_iff, containsText_iff, containsText_iff, String.toList_append]
  exact same

theorem repoName_git (remote : RemotePath path) :
    repoName (path ++ ".git").toList = path.toList := by
  have name := @repoName_suffixed [] [] path.toList remote.bareName.1 (by simp) (by simp)
  rwa [List.append_nil, List.nil_append, ← String.toList_append] at name

end Plain

section Agreement

variable [UrlParser] {hosts : Url.HostParser} {user password host path : String}

/-- The scp-like form with the suffix is the path as it is. -/
theorem scp_suffixed (name : HostName hosts host) (remote : RemotePath path)
    (plain : containsText path "://" = false) :
    normalizeRemoteUrl ("git@" ++ host ++ ":" ++ (path ++ ".git")) =
      finish (toAsciiLowercase host) none (path ++ ".git") := by
  have starts : (path ++ ".git").toList.head? ≠ some '/' := by
    rw [String.toList_append, List.head?_append_of_ne_nil _ remote.bareName.2.1]
    exact remote.starts
  rw [scp_read name.domain starts (by rw [containsText_git, plain]), (trimEnd_git path).1]

omit [UrlParser] in
theorem finish_named (named : host ≠ "") (remote : RemotePath path) (dense : ' ' ∉ path.toList)
    {body : String} (same : repoName body.toList = path.toList) :
    finish (toAsciiLowercase host) none body =
      .ok ("https://" ++ toAsciiLowercase host ++ "/" ++ path) := by
  rw [finish_ok_iff, same, String.ofList_toList]
  exact ⟨⟨lower_nonempty named, remote.bareName.2.1, dense⟩, rfl⟩

theorem scp_named (name : HostName hosts host) (remote : RemotePath path)
    (plain : PlainRemote path) : normalizeRemoteUrl ("git@" ++ host ++ ":" ++ path) =
      .ok ("https://" ++ toAsciiLowercase host ++ "/" ++ path) := by
  have dense : ' ' ∉ path.toList := fun space => by cases (plain.quiet _ space).1
  have whole := @repoName_bare [] [] path.toList remote.bareName.1 remote.bareName.2.2 (by simp)
    (by simp)
  rw [List.append_nil, List.nil_append] at whole
  rw [scp_read name.domain remote.starts plain.scp,
    trimEnd_quiet remote fun char member => (plain.quiet char member).1,
    finish_named name.nonempty remote dense whole]

/-- All forms have one key exactly if both readers leave the path as it is. -/
theorem forms_named_iff (follows : UrlParser.Follows hosts) (name : HostName hosts host)
    (remote : RemotePath path) (credentials : UserInfo user) (secret : UserInfo password) :
    (∃ key, ∀ result ∈ (remoteForms user password host path).map normalizeRemoteUrl,
      result = .ok key) ↔ PlainRemote path := by
  rw [remoteForms_read follows name credentials secret]
  simp only [List.forall_mem_cons, List.not_mem_nil, false_implies, implies_true, and_true]
  constructor
  · rintro ⟨key, -, second, -, fourth, fifth, -, -⟩
    have starts : (path ++ ".git").toList.head? ≠ some '/' := by
      rw [String.toList_append, List.head?_append_of_ne_nil _ remote.bareName.2.1]
      exact remote.starts
    have scp : containsText path "://" = false := by
      by_contra marked
      rw [Bool.not_eq_false, ← containsText_git] at marked
      obtain ⟨error, failed⟩ := scp_invalid follows name.domain starts marked
      rw [second] at failed
      cases failed
    rw [scp_suffixed name remote scp, finish_ok_iff, repoName_git remote] at second
    rw [urlResult_ok_iff name.nonempty] at fourth fifth
    have kept : ∀ {text : String}, key = "https://" ++ toAsciiLowercase host ++ "/" ++ text →
        text.toList = path.toList := by
      intro text same
      rw [second.2, String.append_right_inj] at same
      rw [← same, String.toList_ofList]
    have whole := kept fifth.2
    rw [String.toList_ofList] at whole
    have quiet : ∀ char ∈ path.toList, Url.pathSet char = false ∧ char ≠ '\\' := by
      intro char member
      rw [← whole] at member
      obtain ⟨plain, straight⟩ := urlText_chars (mem_of_mem_repoName member)
      exact ⟨plain, straight rfl⟩
    refine ⟨scp, quiet, ?_⟩
    have bare := kept fourth.2
    rw [String.toList_ofList, trimEnd_quiet remote fun char member => (quiet char member).1] at bare
    obtain ⟨rest, text⟩ := urlText_cons true path
    have longer := length_repoName_le rest
    rw [← text, bare] at longer
    apply @Url.pathSegments_plain true path.toList (fun char member => (quiet char member).1)
      (fun _ member => (quiet _ member).2 rfl)
    show path.toList.length < (urlText true path).length
    rw [text, List.length_cons]
    omega
  · intro plain
    have dense : ' ' ∉ path.toList := fun space => by cases (plain.quiet _ space).1
    have whole : trimEnd path = path :=
      trimEnd_quiet remote fun char member => (plain.quiet char member).1
    have result : ∀ {special : Bool} {body : String},
        repoName (urlText special body) = path.toList → urlResult host special body =
          .ok ("https://" ++ toAsciiLowercase host ++ "/" ++ path) := by
      intro special body same
      apply finish_named name.nonempty remote dense
      rw [String.toList_ofList, same]
    rw [scp_suffixed name remote plain.scp, whole]
    obtain ⟨bare, suffixed, slashed⟩ := plain.named remote true
    obtain ⟨other, last, -⟩ := plain.named remote false
    exact ⟨_, scp_named name remote plain,
      finish_named name.nonempty remote dense (repoName_git remote), result last, result bare,
      result suffixed, result slashed, result other⟩

omit [UrlParser] in
/-- A space at the end of a path stays in the forms with the suffix. -/
theorem blank_named (empty : repoName (trimEnd path).toList = [])
    (spaced : ' ' ∈ path.toList) : ¬NamesNothing false (path ++ ".git").toList := by
  obtain ⟨blank, shape, white⟩ := trimEnd_shape path
  obtain ⟨front, kept, back, text, slashes, -, either⟩ := repoName_shape (trimEnd path).toList
  rw [empty, List.nil_append] at either
  have chars : ∀ char ∈ (trimEnd path).toList, char ∈ "/.git".toList := by
    intro char member
    rw [text, List.mem_append, List.mem_append] at member
    rcases member with (before | inside) | after
    · rw [slashes char (List.mem_append_left _ before)]
      simp
    · rcases either with rfl | rfl
      · cases inside
      · have marks : "/.git".toList = '/' :: ".git".toList := by simp
        rw [marks]
        exact List.mem_cons_of_mem '/' inside
    · rw [slashes char (List.mem_append_right _ after)]
      simp
  have uncut : ∀ char ∈ (trimEnd path).toList, Url.isCut char = false := by
    have marks : ∀ char ∈ "/.git".toList, Url.isCut char = false := by simp [Url.isCut]
    exact fun char member => marks char (chars char member)
  have whole : ∀ char ∈ blank, Url.isSlash false char = false ∧ Url.isCut char = false := by
    intro char member
    have space := white char member
    simp only [Url.isSlash, Url.isCut, Bool.false_and, Bool.or_false, Bool.or_eq_false_iff,
      decide_eq_false_iff_not]
    refine ⟨?_, ?_, ?_⟩ <;> rintro rfl <;> exact absurd space (by decide)
  have space : ' ' ∈ blank.filter fun char => !Url.isTabOrNewline char := by
    rw [shape, List.mem_append] at spaced
    refine List.mem_filter.mpr ⟨spaced.resolve_left fun inside => ?_, rfl⟩
    have mark := chars _ inside
    simp at mark
  obtain ⟨init, last, segments, -⟩ := Url.pathSegments_suffixed gitSuffix uncut whole
  rw [← shape, ← String.toList_append] at segments
  have percent : '%' ∈ urlText false (path ++ ".git") := by
    refine List.mem_flatMap.mpr ⟨_, segments ▸ List.mem_append_right init List.mem_cons_self, ?_⟩
    refine List.mem_cons_of_mem '/' (List.mem_append_left _ (List.mem_flatMap.mpr
      ⟨' ', List.mem_append_right last space, ?_⟩))
    decide +kernel
  have named := mem_repoName percent (by simp)
  intro nothing
  have none : repoName (urlText false (path ++ ".git")) = [] := nothing
  rw [none] at named
  cases named

/-- All forms are errors exactly if neither reader finds a repository. -/
theorem forms_rejected_iff (follows : UrlParser.Follows hosts) (name : HostName hosts host)
    (remote : RemotePath path) (credentials : UserInfo user) (secret : UserInfo password) :
    (∀ result ∈ (remoteForms user password host path).map normalizeRemoteUrl,
      ∃ error, result = .error error) ↔ Rejected path := by
  have starts : (path ++ ".git").toList.head? ≠ some '/' := by
    rw [String.toList_append, List.head?_append_of_ne_nil _ remote.bareName.2.1]
    exact remote.starts
  have lower := lower_nonempty name.nonempty
  rw [remoteForms_read follows name credentials secret]
  simp only [List.forall_mem_cons, List.not_mem_nil, false_implies, implies_true, and_true,
    urlResult_error_iff name.nonempty]
  constructor
  · rintro ⟨first, second, ssh, https, secured, -, git⟩
    refine ⟨?_, Bool.rec git https, Bool.rec ssh secured⟩
    by_cases marked : containsText path "://" = true
    · exact .inl marked
    · rw [Bool.not_eq_true] at marked
      rw [scp_read name.domain remote.starts marked, finish_error_iff lower] at first
      rw [scp_suffixed name remote marked, finish_error_iff lower, repoName_git remote] at second
      rcases first with empty | space
      · exact absurd ssh (blank_named empty (second.resolve_left remote.bareName.2.1))
      · exact .inr (mem_of_mem_repoName space)
  · rintro ⟨scp, bare, suffixed⟩
    have slashed : NamesNothing true (path ++ ".git/").toList := by
      have text : (path ++ ".git/").toList = path.toList ++ ".git".toList ++ ['/'] := by simp
      have named := suffixed true
      unfold NamesNothing at named ⊢
      rw [String.toList_append] at named
      rw [text]
      rcases Url.pathSegments_slash gitSuffix true path.toList with same | longer
      · rw [same, named]
      · rw [longer, Url.Path.text, List.flatMap_append]
        exact (repoName_slash _).trans named
    refine ⟨?_, ?_, suffixed false, bare true, suffixed true, slashed, bare false⟩
    · by_cases marked : containsText path "://" = true
      · exact scp_invalid follows name.domain remote.starts marked
      · have space := scp.resolve_left marked
        rw [Bool.not_eq_true] at marked
        rw [scp_read name.domain remote.starts marked, finish_error_iff lower]
        exact .inr (mem_repoName space (by simp))
    · by_cases marked : containsText path "://" = true
      · exact scp_invalid follows name.domain starts (by rw [containsText_git, marked])
      · have space := scp.resolve_left marked
        obtain ⟨blank, shape, -⟩ := trimEnd_shape path
        rw [Bool.not_eq_true] at marked
        rw [scp_suffixed name remote marked, finish_error_iff lower, repoName_git remote, shape]
        exact .inr (List.mem_append_left _ space)

/-- The forms of a remote agree exactly on the paths that both readers leave as they are, and
on those that neither takes for a repository. -/
theorem remoteForms_agree_iff (follows : UrlParser.Follows hosts) (name : HostName hosts host)
    (remote : RemotePath path) (credentials : UserInfo user) (secret : UserInfo password) :
    SameResult ((remoteForms user password host path).map normalizeRemoteUrl) ↔
      PlainRemote path ∨ Rejected path := by
  unfold SameResult
  rw [forms_named_iff follows name remote credentials secret,
    forms_rejected_iff follows name remote credentials secret]

end Agreement

theorem hostName_standard : HostName (fun _ host => some (host.map Char.toLower)) "github.com" := by
  refine ⟨by simp, by simp [Url.isDomainChar], rfl, ?_⟩
  simp

/-- A plain repository has one key. -/
theorem remoteForms_agree_run :
    SameResult ((remoteForms "user" "password" "github.com" "Org/Repo").map
      (@normalizeRemoteUrl standardParser)) := by
  have remote : RemotePath "Org/Repo" := by
    refine ⟨by simp, by simp, by simp, by decide +kernel, by decide +kernel⟩
  have credentials : UserInfo "user" ∧ UserInfo "password" := by
    simp [UserInfo, Url.endsAuthority, Url.isSlash, Url.isCut]
  have plain : PlainRemote "Org/Repo" := by
    refine ⟨by decide +kernel, ?_, by decide +kernel⟩
    simp [Url.pathSet, Url.controlSet]
  exact (@remoteForms_agree_iff standardParser _ "user" "password" "github.com" "Org/Repo"
    standardParser_follows hostName_standard remote credentials.1 credentials.2).mpr (.inl plain)

/-- A repository with a space in its name has a key as a URL only. -/
theorem spacedRemote_split :
    HostName (fun _ host => some (host.map Char.toLower)) "github.com" ∧
    RemotePath "Org/My Repo" ∧
    ¬SameResult ((remoteForms "user" "password" "github.com" "Org/My Repo").map
      (@normalizeRemoteUrl standardParser)) := by
  have remote : RemotePath "Org/My Repo" := by
    refine ⟨by simp, by simp, by simp, by decide +kernel, by decide +kernel⟩
  have scp : (@normalizeRemoteUrl standardParser "git@github.com:Org/My Repo").toOption = none := by
    decide +kernel
  have url : (@normalizeRemoteUrl standardParser "https://github.com/Org/My Repo").toOption =
      some "https://github.com/Org/My%20Repo" := by
    decide +kernel
  have first : "git@github.com:Org/My Repo" ∈
      remoteForms "user" "password" "github.com" "Org/My Repo" := by decide +kernel
  have fourth : "https://github.com/Org/My Repo" ∈
      remoteForms "user" "password" "github.com" "Org/My Repo" := by decide +kernel
  refine ⟨hostName_standard, remote, ?_⟩
  rintro (⟨key, named⟩ | failed)
  · rw [named _ (List.mem_map_of_mem first)] at scp
    cases scp
  · obtain ⟨error, rejected⟩ := failed _ (List.mem_map_of_mem fourth)
    rw [rejected] at url
    cases url

end AgentTranscript
