import RoadTraffic.Text.Number
import RoadTraffic.Text.Percent

/-!
# Web addresses

An address is taken the way browsers take it: blanks around it and line ends within it do not
count, the names of scheme and host are put in lower case, a port that goes without saying is left
out, `.` and `..` in the path are followed, and what may not stand in an address is escaped. User
names are dropped. In the schemes of the web a backslash is as good as a slash.

* `Url.parse?`: the address that a text stands for.
* `Url.text`: its normal form.
-/

namespace RoadTraffic

/-- An address in normal form. -/
structure Url where
  scheme : String
  /-- The host, which may be empty outside the web, and the port unless it goes without saying. -/
  authority : Option String
  path : String
  query : Option String
  fragment : Option String
  deriving DecidableEq, Repr

namespace Url

/-- The schemes of the web and the ports that go without saying. -/
def webSchemes : List (String × Nat) :=
  [("http", 80), ("https", 443), ("ws", 80), ("wss", 443), ("ftp", 21)]

/-! ## What stands for itself -/

/-- Whether a `byte` is a visible ASCII character other than the given ones. -/
def isVisibleExcept (others : List Char) (byte : UInt8) : Bool :=
  0x20 < byte && byte < 0x7F && !others.contains (Char.ofNat byte.toNat)

/-- Whether a byte stands for itself in a path that is made of names. -/
def inPath : UInt8 → Bool :=
  isVisibleExcept ['"', '#', '<', '>', '?', '^', '\x60', '\x7b', '\x7d']

/-- Whether a byte stands for itself in a path that is not made of names. -/
def inOpaquePath (byte : UInt8) : Bool := 0x20 ≤ byte && byte < 0x7F

/-- Whether a byte stands for itself in a query. -/
def inQuery (isWeb : Bool) : UInt8 → Bool :=
  isVisibleExcept (['"', '#', '<', '>'] ++ if isWeb then ['\''] else [])

/-- Whether a byte stands for itself in a fragment. -/
def inFragment : UInt8 → Bool := isVisibleExcept ['"', '<', '>', '\x60']

/-- The `text` with escapes for what does not stand for itself. -/
def escape (standsForItself : UInt8 → Bool) (text : List Char) : String :=
  String.ofList (Percent.escapeBytes standsForItself (Percent.bytesOf (String.ofList text)))

/-! ## Splitting -/

/-- The `text` without controls and spaces at both ends, and without line ends and tabs. -/
def clean (text : List Char) : List Char :=
  let isOuter := fun c : Char => c.toNat ≤ 0x20
  (((text.dropWhile isOuter).reverse.dropWhile isOuter).reverse).filter fun c =>
    c != '\t' && c != '\n' && c != '\r'

/-- The `text` before the first `mark`, and what comes after it if there is one. -/
def cut (mark : Char) (text : List Char) : List Char × Option (List Char) :=
  match text.dropWhile (· != mark) with
  | [] => (text, none)
  | _ :: rest => (text.takeWhile (· != mark), some rest)

/-- The stretches of a `text` between separators, of which there is one more than of these. -/
def split (isSeparator : Char → Bool) (text : List Char) : List (List Char) :=
  text.foldr (fun c parts =>
    if isSeparator c then [] :: parts
    else
      match parts with
      | part :: parts => (c :: part) :: parts
      | [] => [[c]]) [[]]

/-- Whether a character may stand in the name of a scheme. -/
def isSchemeChar (c : Char) : Bool := c.isAlphanum || c == '+' || c == '-' || c == '.'

/-- The scheme at the head of a `text`, in lower case, and what comes after its colon. -/
def takeScheme? (text : List Char) : Option (String × List Char) :=
  match cut ':' text with
  | (first :: name, some rest) =>
    if first.isAlpha && name.all isSchemeChar then
      some (String.ofList ((first :: name).map Char.toLower), rest)
    else none
  | _ => none

/-! ## Hosts -/

/-- The visible characters that the name of a host cannot have. -/
def notInHosts : List Char :=
  ['#', '%', '/', ':', '<', '>', '?', '@', '[', '\\', ']', '^', '|']

/-- Whether a character may stand in the name of a host. -/
def isHostChar (c : Char) : Bool :=
  0x20 < c.toNat && c.toNat < 0x7F && !notInHosts.contains c

/-- The value of a digit in a `base` up to sixteen. -/
def digitValue? (base : Nat) (c : Char) : Option Nat :=
  let value :=
    if c.isDigit then c.toNat - '0'.toNat
    else if 'a' ≤ c && c ≤ 'f' then c.toNat - 'a'.toNat + 10
    else base
  if value < base then some value else none

/-- A number of an address in figures: decimal, octal after `0` or hexadecimal after `0x`. -/
def addressNumber? : List Char → Option Nat
  | [] => none
  | '0' :: 'x' :: digits => digits.foldlM (fun n c => (digitValue? 16 c).map (16 * n + ·)) 0
  | '0' :: digits => digits.foldlM (fun n c => (digitValue? 8 c).map (8 * n + ·)) 0
  | digits => digits.foldlM (fun n c => (digitValue? 10 c).map (10 * n + ·)) 0

/-- The address in figures with the given `numbers`. The last one fills the bytes that the others
leave. -/
def addressOfNumbers? (numbers : List Nat) : Option String :=
  match numbers.getLast? with
  | none => none
  | some last =>
    let leading := numbers.dropLast
    if leading.length ≤ 3 && leading.all (· < 256) && last < 1 <<< (32 - 8 * leading.length) then
      let filled := (List.range (4 - leading.length)).reverse.map fun i => (last >>> (8 * i)) % 256
      some (".".intercalate ((leading ++ filled).map toString))
    else none

/-- Whether a name ends in a number, so that it must be an address in figures. -/
def endsInNumber (labels : List (List Char)) : Bool :=
  match labels.reverse.dropWhile List.isEmpty with
  | last :: _ => last.all Char.isDigit || (addressNumber? last).isSome
  | [] => false

/-- The normal form of the `name` of a host. One in brackets is taken as it is. -/
def host? (name : List Char) : Option String :=
  let name := name.map Char.toLower
  match name with
  | [] => none
  | '[' :: _ =>
    if name.getLast? == some ']' then some (String.ofList name) else none
  | _ =>
    if !name.all isHostChar then none
    else
      let labels := split (· == '.') name
      let labels := if labels.getLast? == some [] then labels.dropLast else labels
      if endsInNumber labels then (labels.mapM addressNumber?).bind addressOfNumbers?
      else some (String.ofList name)

/-- The name of a host and the `text` of its port, where a host in brackets may have colons. -/
def splitPort (text : List Char) : List Char × List Char :=
  let port := (text.reverse.takeWhile fun c => c != ':' && c != ']').reverse
  let name := text.take (text.length - port.length)
  match name.getLast? with
  | some ':' => (name.dropLast, port)
  | _ => (text, [])

/-- The normal form of a host and its port, where `usual` is the port that goes without saying. -/
def authority? (usual : Nat) (text : List Char) : Option String :=
  let (name, port) := splitPort ((text.reverse.takeWhile (· != '@')).reverse)
  match host? name with
  | none => none
  | some host =>
    if !port.all Char.isDigit then none
    else
      let number := Number.ofDigits port
      if port.isEmpty || number = usual then some host
      else if number < 0x10000 then some s!"{host}:{number}"
      else none

/-! ## Paths -/

/-- Whether a name in a path stands for the folder itself. -/
def isHere (name : String) : Bool := [".", "%2e"].contains name.toLower

/-- Whether a name in a path stands for the folder above. -/
def isAbove (name : String) : Bool := ["..", ".%2e", "%2e.", "%2e%2e"].contains name.toLower

/-- The names of a path behind those in `done`, last one first, with `.` and `..` followed. A path
that ends in either ends in a slash. -/
def resolve (done : List String) : List String → List String
  | [] => done.reverse
  | name :: rest =>
    if isAbove name then resolve (if rest.isEmpty then "" :: done.drop 1 else done.drop 1) rest
    else if isHere name then resolve (if rest.isEmpty then "" :: done else done) rest
    else resolve (name :: done) rest

/-- The normal form of a `path`, given without the slash at its head. -/
def normalPath (isSlash : Char → Bool) (path : List Char) : String :=
  "/" ++ "/".intercalate (resolve [] ((split isSlash path).map (escape inPath)))

/-! ## Addresses -/

/-- Whether a character is a slash in the schemes of the web. -/
def isWebSlash (c : Char) : Bool := c == '/' || c == '\\'

/-- The address in a `scheme` of the web, from the `text` after its colon. -/
def parseWeb? (scheme : String) (usual : Nat) (text : List Char) : Option Url :=
  let (rest, fragment) := cut '#' text
  let (rest, query) := cut '?' rest
  let rest := rest.dropWhile isWebSlash
  (authority? usual (rest.takeWhile fun c => !isWebSlash c)).map fun authority =>
    { scheme
      authority
      path := normalPath isWebSlash ((rest.dropWhile fun c => !isWebSlash c).drop 1)
      query := query.map (escape (inQuery true))
      fragment := fragment.map (escape inFragment) }

/-- The address in another `scheme`, from the `text` after its colon. -/
def parseOther (scheme : String) (text : List Char) : Url :=
  let (rest, fragment) := cut '#' text
  let (rest, query) := cut '?' rest
  let query := query.map (escape (inQuery false))
  let fragment := fragment.map (escape inFragment)
  match rest with
  | '/' :: '/' :: rest =>
    let authority := rest.takeWhile (· != '/')
    let path := match rest.dropWhile (· != '/') with
      | [] => ""
      | _ :: path => normalPath (· == '/') path
    { scheme, query, fragment, path, authority := some (String.ofList authority) }
  | '/' :: path =>
    { scheme, query, fragment, authority := none, path := normalPath (· == '/') path }
  | path => { scheme, query, fragment, authority := none, path := escape inOpaquePath path }

/-- The address that a `text` stands for. A text without scheme stands for none. -/
def parse? (text : String) : Option Url :=
  match takeScheme? (clean text.toList) with
  | none => none
  | some (scheme, rest) =>
    match webSchemes.lookup scheme with
    | some usual => parseWeb? scheme usual rest
    | none => some (parseOther scheme rest)

/-- The host and its port, if the address names a host. -/
def server? (url : Url) : Option String := url.authority.filter (!·.isEmpty)

/-- A part of an address after its mark. -/
def marked (mark : String) : Option String → String
  | some part => mark ++ part
  | none => ""

/-- What a server is asked for: path and query, without the fragment. -/
def target (url : Url) : String := url.path ++ marked "?" url.query

/-- The text of an address. -/
def text (url : Url) : String :=
  url.scheme ++ ":" ++ marked "//" url.authority ++ url.target ++ marked "#" url.fragment

end Url

end RoadTraffic
