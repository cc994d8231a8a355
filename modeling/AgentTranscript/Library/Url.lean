import AgentTranscript.Library.Percent

/-!
The parser of the URL standard, without a base URL, as far as scheme, host, port and
path go. Hosts are parsed by a parameter.
-/

set_option autoImplicit false

namespace Url

open Percent

section Characters

def isC0OrSpace (char : Char) : Bool :=
  char.toNat ≤ 0x20

def isTabOrNewline (char : Char) : Bool :=
  char = '\t' || char = '\n' || char = '\r'

def isSchemeChar (char : Char) : Bool :=
  char.isAlphanum || char = '+' || char = '-' || char = '.'

/-- The C0 control percent-encode set. -/
def controlSet (char : Char) : Bool :=
  char.toNat < 0x20 || 0x7E < char.toNat

/-- The path percent-encode set. -/
def pathSet (char : Char) : Bool :=
  controlSet char ||
    char ∈ [' ', '"', '#', '<', '>', '?', '^', '`', '{', '}']

def isSlash (special : Bool) (char : Char) : Bool :=
  char = '/' || special && char = '\\'

/-- A query or a fragment starts. -/
def isCut (char : Char) : Bool :=
  char = '?' || char = '#'

/-- The input without C0 controls and spaces around it, and without tabs and newlines. -/
def cleaned (input : List Char) : List Char :=
  ((input.dropWhile isC0OrSpace).rdropWhile isC0OrSpace).filter fun char => !isTabOrNewline char

end Characters

section Path

abbrev Segment := List Char

def isSingleDot (segment : Segment) : Bool :=
  segment.map Char.toLower ∈ [".", "%2e"].map String.toList

def isDoubleDot (segment : Segment) : Bool :=
  segment.map Char.toLower ∈ ["..", ".%2e", "%2e.", "%2e%2e"].map String.toList

def isDriveLetter : Segment → Bool
  | [letter, mark] => letter.isAlpha && (mark = ':' || mark = '|')
  | _ => false

def isNormalizedDriveLetter : Segment → Bool
  | [letter, mark] => letter.isAlpha && mark = ':'
  | _ => false

def normalizeDrive : Segment → Segment
  | [letter, mark] => if isDriveLetter [letter, mark] then [letter, ':'] else [letter, mark]
  | segment => segment

def shorten (file : Bool) : List Segment → List Segment
  | [only] => if file && isNormalizedDriveLetter only then [only] else []
  | path => path.dropLast

/-- What the path state does with its buffer at the end of a segment. -/
def closeSegment (file slash : Bool) (path : List Segment) (segment : Segment) : List Segment :=
  if isDoubleDot segment then
    if slash then shorten file path else shorten file path ++ [[]]
  else if isSingleDot segment then
    if slash then path else path ++ [[]]
  else path ++ [if file && path.isEmpty then normalizeDrive segment else segment]

def pathState (special file : Bool) (path : List Segment) (buffer : Segment) :
    List Char → List Segment
  | [] => closeSegment file false path buffer
  | char :: rest =>
      if isSlash special char then
        pathState special file (closeSegment file true path buffer) [] rest
      else if isCut char then closeSegment file false path buffer
      else pathState special file path (buffer ++ encodeChar pathSet char) rest

def pathStartState (special file : Bool) : List Char → List Segment
  | [] => if special then pathState special file [] [] [] else []
  | char :: rest =>
      if isSlash special char then pathState special file [] [] rest
      else if !special && isCut char then []
      else pathState special file [] [] (char :: rest)

end Path

section Parser

/-- The host parser, for special and for other schemes. -/
abbrev HostParser := Bool → List Char → Option (List Char)

inductive Path where
  | opaqueText (text : List Char)
  | list (segments : List Segment)
  deriving DecidableEq, Repr

end Parser

end Url

/-- The parts of a URL. -/
structure Url where
  scheme : List Char
  host : Option (List Char)
  port : Option Nat
  path : Url.Path
  deriving DecidableEq, Repr

namespace Url

open Percent

section Parser

def Path.text : Path → List Char
  | .opaqueText text => text
  | .list segments => segments.flatMap ('/' :: ·)

def specialSchemes : List (List Char × Option Nat) :=
  [("ftp".toList, some 21), ("file".toList, none), ("http".toList, some 80),
    ("https".toList, some 443), ("ws".toList, some 80), ("wss".toList, some 443)]

def isSpecial (scheme : List Char) : Bool :=
  (specialSchemes.lookup scheme).isSome

def defaultPort (scheme : List Char) : Option Nat :=
  (specialSchemes.lookup scheme).join

/-- The scheme, in lower case, and what follows its colon. -/
def splitScheme (input : List Char) : Option (List Char × List Char) :=
  if (input.head?).any Char.isAlpha then
    match input.dropWhile isSchemeChar with
    | ':' :: rest => some ((input.takeWhile isSchemeChar).map Char.toLower, rest)
    | _ => none
  else none

def endsAuthority (special : Bool) (char : Char) : Bool :=
  isSlash special char || isCut char

/-- What follows the last `@`, if there is one, is the host with its port. -/
def dropCredentials (authority : List Char) : List Char :=
  authority.rtakeWhile (· ≠ '@')

/-- The host ends at the first colon outside brackets. -/
def splitPort (inside : Bool) : List Char → List Char × Option (List Char)
  | [] => ([], none)
  | char :: rest =>
      if char = ':' && !inside then ([], some rest)
      else
        let (host, port) := splitPort (if char = '[' then true else if char = ']' then false
          else inside) rest
        (char :: host, port)

def parsePort (scheme digits : List Char) : Option (Option Nat) :=
  if digits.isEmpty then some none
  else if digits.all Char.isDigit then
    let port := Nat.ofDigitChars 10 digits 0
    if 65535 < port then none
    else some (if defaultPort scheme = some port then none else some port)
  else none

variable (hosts : HostParser)

def parseHost (special : Bool) (text : List Char) : Option (List Char) :=
  if text.isEmpty then (if special then none else some []) else hosts special text

def authorityState (scheme input : List Char) : Option Url :=
  let special := isSpecial scheme
  let authority := input.takeWhile fun char => !endsAuthority special char
  let rest := input.dropWhile fun char => !endsAuthority special char
  if '@' ∈ authority ∧ dropCredentials authority = [] then none
  else
    let (hostText, portText) := splitPort false (dropCredentials authority)
    if portText.isSome ∧ hostText = [] then none
    else do
      let host ← parseHost hosts special hostText
      let port ← parsePort scheme (portText.getD [])
      some ⟨scheme, some host, port, .list (pathStartState special false rest)⟩

def fileHostState (input : List Char) : Option Url :=
  let buffer := input.takeWhile fun char => !endsAuthority true char
  let rest := input.dropWhile fun char => !endsAuthority true char
  let scheme := "file".toList
  if isDriveLetter buffer then
    some ⟨scheme, some [], none, .list (pathState true true [] buffer rest)⟩
  else if buffer.isEmpty then
    some ⟨scheme, some [], none, .list (pathStartState true true rest)⟩
  else do
    let host ← hosts true buffer
    let named := if host = "localhost".toList then [] else host
    some ⟨scheme, some named, none, .list (pathStartState true true rest)⟩

def filePathState (input : List Char) : Url :=
  ⟨"file".toList, some [], none, .list (pathState true true [] [] input)⟩

def fileSlashState : List Char → Option Url
  | [] => some (filePathState [])
  | char :: rest =>
      if isSlash true char then fileHostState hosts rest else some (filePathState (char :: rest))

def fileState : List Char → Option Url
  | [] => some (filePathState [])
  | char :: rest =>
      if isSlash true char then fileSlashState hosts rest else some (filePathState (char :: rest))

def parse (input : List Char) : Option Url :=
  match splitScheme (cleaned input) with
  | none => none
  | some (scheme, rest) =>
      if scheme = "file".toList then fileState hosts rest
      else if isSpecial scheme then authorityState hosts scheme (rest.dropWhile (isSlash true))
      else
        match rest with
        | '/' :: '/' :: after => authorityState hosts scheme after
        | '/' :: after => some ⟨scheme, none, none, .list (pathState false false [] [] after)⟩
        | _ =>
            let text := encode controlSet (rest.takeWhile fun char => !isCut char)
            some ⟨scheme, none, none, .opaqueText text⟩

/-- The file that a URL names: the bytes of its segments, each after a slash. -/
def toFilePath (url : Url) : Option (List UInt8) :=
  match url.path with
  | .opaqueText _ => none
  | .list segments =>
      if url.host.getD [] ∈ [[], "localhost".toList] then
        some (segments.flatMap fun segment => 0x2F :: decode segment)
      else none

end Parser

end Url
