import Bindery.Http.Form
import Bindery.Http.Host

/-! # URLs -/

namespace Bindery.Http

open Text

structure Authority where
  /-- What stands before the at sign; empty without one. -/
  userinfo : String := ""
  host : Host
  port : Option Nat := none
deriving DecidableEq, Repr

inductive UrlPath where
  /-- A text without structure. -/
  | plain (s : String)
  /-- Segments with slashes before them, percent-encoded. -/
  | segments (ss : List String)
deriving DecidableEq, Repr

structure Url where
  scheme : String
  authority : Option Authority
  path : UrlPath
  query : Option String
  fragment : Option String
deriving DecidableEq, Repr

namespace Url

/-- Schemes with the ports that they imply; a file has none. -/
def specialSchemes : List (String × Option Nat) :=
  [("http", some 80), ("https", some 443), ("ws", some 80), ("wss", some 443), ("ftp", some 21),
   ("file", none)]

def isSpecial (scheme : String) : Bool := (specialSchemes.lookup scheme).isSome

def defaultPort? (scheme : String) : Option Nat := (specialSchemes.lookup scheme).join

/-! ## Text -/

def Authority.text (a : Authority) : String :=
  (if a.userinfo.isEmpty then "" else a.userinfo ++ "@") ++ a.host.text ++
    match a.port with
    | some p => ":" ++ decimal p
    | none => ""

def segmentsText (ss : List String) : String := String.join (ss.map ("/" ++ ·))

/-- Without an authority a path may not begin with two slashes. -/
def pathText (authority : Option Authority) : UrlPath → String
  | .plain s => s
  | .segments ss =>
    match authority, ss with
    | none, "" :: _ :: _ => "/." ++ segmentsText ss
    | _, _ => segmentsText ss

def text (u : Url) : String :=
  u.scheme ++ ":" ++ ((u.authority.map fun a => "//" ++ Authority.text a).getD "") ++
    pathText u.authority u.path ++ ((u.query.map ("?" ++ ·)).getD "") ++
    (u.fragment.map ("#" ++ ·)).getD ""

/-! ## Segments -/

/-- A dot, plain or encoded. -/
def isSingleDot (s : String) : Bool := [".", "%2e", "%2E"].contains s

def isDoubleDot (s : String) : Bool :=
  let dots := [".", "%2e", "%2E"]
  dots.any fun a => dots.any fun b => s == a ++ b

/-- Goes on from a path by one segment, behind which a slash may follow. Dots go nowhere or one
level up, and leave a directory at the end. -/
def step (ss : List String) (s : String) (slash : Bool) : List String :=
  if isDoubleDot s then (if slash then ss.dropLast else ss.dropLast ++ [""])
  else if isSingleDot s then (if slash then ss else ss ++ [""])
  else ss ++ [s]

def steps (ss : List String) : List String → List String
  | [] => ss
  | [last] => step ss last false
  | s :: rest => steps (step ss s true) rest

/-- A path with its empty last segment dropped, unless that is all there is. -/
def dropEmptyLast (ss : List String) : List String :=
  match ss.reverse with
  | "" :: s :: rest => (s :: rest).reverse
  | _ => ss

def isSkipped (c : Char) : Bool := c == '\t' || c == '\n' || c == '\r'

def encodeSegment (scheme : String) (s : String) : String :=
  let kept (c : Char) := keptInSegment c && !(isSpecial scheme && c == '\\')
  String.ofList (percentEncode kept (s.toList.filter (!isSkipped ·)))

/-- Puts a text behind a path as one segment. Dots are passed over; where the path is a single
slash the segment takes its place. -/
def push (scheme : String) (ss : List String) (s : String) : List String :=
  if s = "." ∨ s = ".." then ss
  else step (if ss = [""] then [] else ss) (encodeSegment scheme s) false

/-- Appends texts as segments. -/
def extend (u : Url) (parts : List String) : Except UrlFault Url :=
  match u.path with
  | .plain _ => .error .plainPath
  | .segments ss => .ok { u with path := .segments (parts.foldl (push u.scheme) (dropEmptyLast ss)) }

/-- Appends pairs to the query, if there are any. -/
def appendPairs (u : Url) (ps : List (String × String)) : Url :=
  if ps.isEmpty then u
  else
    let added := String.ofList (Form.encode ps)
    let query := match u.query with
      | none | some "" => added
      | some old => old ++ "&" ++ added
    { u with query := some query }

/-! ## Reading -/

/-- What stands before the first of some characters, and what stands behind it. -/
def cut (stop : Char → Bool) (cs : List Char) : List Char × Option (List Char) :=
  match cs.span (!stop ·) with
  | (front, []) => (front, none)
  | (front, _ :: back) => (front, some back)

/-- A letter, then letters, digits, plus, minus and dots, then a colon. -/
def readScheme? (cs : List Char) : Option (String × List Char) :=
  let isSchemeChar (c : Char) := c.isAlphanum || c == '+' || c == '-' || c == '.'
  match cs, cut (· == ':') cs with
  | c :: _, (scheme, some rest) =>
    if c.isAlpha && scheme.all isSchemeChar then
      some (String.ofList (scheme.map Char.toLower), rest)
    else none
  | _, _ => none

/-- A colon without a password behind it is dropped. -/
def readUserinfo (cs : List Char) : String :=
  let encode (cs : List Char) := percentEncode keptInUserinfo cs
  String.ofList (match cut (· == ':') cs with
    | (name, none) | (name, some []) => encode name
    | (name, some password) => encode name ++ ':' :: encode password)

/-- The parts before and behind the last at sign. -/
def splitUserinfo (cs : List Char) : Option (List Char) × List Char :=
  match cut (· == '@') cs.reverse with
  | (host, some user) => (some user.reverse, host.reverse)
  | (_, none) => (none, cs)

/-- The port where it is not the scheme's own. -/
def readPort (scheme : String) (cs : List Char) : Except UrlFault (Option Nat) :=
  if cs.all Char.isDigit then
    let n := (Host.naturalIn? 10 cs).getD 0
    if 65535 < n then .error .invalidPort
    else if cs.isEmpty || defaultPort? scheme = some n then .ok none
    else .ok (some n)
  else .error .invalidPort

/-- Splits at the first colon outside brackets. -/
def splitPort : Bool → List Char → List Char × Option (List Char)
  | _, [] => ([], none)
  | inside, c :: cs =>
    if c = ':' ∧ !inside then ([], some cs)
    else
      let inside := c = '[' || (inside && c ≠ ']')
      let (host, port) := splitPort inside cs
      (c :: host, port)

def readAuthority (scheme : String) (cs : List Char) : Except UrlFault Authority := do
  let (user, rest) := splitUserinfo cs
  let (hostText, portText) := splitPort false rest
  let host ← if isSpecial scheme then Host.parse hostText else Host.parsePlain hostText
  if hostText.isEmpty && (user.isSome || portText.isSome) then throw .emptyHost
  let port ← match portText with
    | some p => readPort scheme p
    | none => pure none
  return { userinfo := readUserinfo (user.getD []), host, port }

/-- The segments of a path that begins with a slash. A backslash is a slash where the scheme is
special. -/
def readSegments (scheme : String) (cs : List Char) : List String :=
  let cs := if isSpecial scheme then cs.map fun c => if c = '\\' then '/' else c else cs
  let pieces := splitAt '/' (match cs with
    | '/' :: rest => rest
    | cs => cs)
  steps [] (pieces.map fun p => String.ofList (percentEncode keptInPath p))

def isSlash (scheme : String) (c : Char) : Bool := c == '/' || (isSpecial scheme && c == '\\')

/-- The authority and the path of a URL whose slashes before them are gone. -/
def readBehindSlashes (scheme : String) (cs : List Char) :
    Except UrlFault (Option Authority × UrlPath) := do
  let (authority, path) := cs.span (!isSlash scheme ·)
  let a ← readAuthority scheme authority
  if path.isEmpty && !isSpecial scheme then return (some a, .segments [])
  else return (some a, .segments (readSegments scheme path))

/-- The segments of a file's path, without the empty ones at its beginning. -/
def readFileSegments (cs : List Char) : List String :=
  match (readSegments "file" cs).dropWhile (· == "") with
  | [] => [""]
  | ss => ss

/-- A file's host may be missing, and the local one is left out. -/
def readFile (cs : List Char) : Except UrlFault (Option Authority × UrlPath) := do
  let slash := isSlash "file"
  let nowhere : Authority := { host := .name "" }
  match cs with
  | a :: b :: rest =>
    if slash a && slash b then
      let (hostText, path) := rest.span (!slash ·)
      let host ← if hostText.isEmpty then pure (.name "") else Host.parse hostText
      let host := if host = .name "localhost" then .name "" else host
      return (some { host }, .segments (readFileSegments path))
    else return (some nowhere, .segments (readFileSegments cs))
  | _ => return (some nowhere, .segments (readFileSegments cs))

def readHierarchy (scheme : String) (cs : List Char) :
    Except UrlFault (Option Authority × UrlPath) :=
  if scheme = "file" then readFile cs
  else if isSpecial scheme then readBehindSlashes scheme (cs.dropWhile (isSlash scheme))
  else match cs with
    | '/' :: '/' :: rest => readBehindSlashes scheme rest
    | '/' :: _ => .ok (none, .segments (readSegments scheme cs))
    | _ => .ok (none, .plain (String.ofList (percentEncode isPlain cs)))

/-- Blanks and controls at the ends, and tabs and line ends anywhere, are passed over. -/
def clean (cs : List Char) : List Char :=
  let isEdge (c : Char) := c ≤ ' '
  ((cs.dropWhile isEdge).reverse.dropWhile isEdge).reverse.filter (!isSkipped ·)

/-- Reads an absolute URL. -/
def parse (s : String) : Except UrlFault Url := do
  let some (scheme, rest) := readScheme? (clean s.toList) | throw .noScheme
  let (rest, fragment) := cut (· == '#') rest
  let (rest, query) := cut (· == '?') rest
  let (authority, path) ← readHierarchy scheme rest
  let keptInQuery (c : Char) := keptInQuery c && !(isSpecial scheme && c == '\x27')
  return {
    scheme, authority, path
    query := query.map fun q => String.ofList (percentEncode keptInQuery q)
    fragment := fragment.map fun f => String.ofList (percentEncode keptInFragment f) }

/-- Whether requests can be sent to it. -/
def isWeb (u : Url) : Bool := u.scheme == "http" || u.scheme == "https"

end Url
end Bindery.Http
