import Matchmaker.Decimal.Literal
import Matchmaker.Text.Hex

/-!
Addresses of databases. Only their form is checked: a scheme, after two slashes perhaps a user, a
host and the number of a socket, and those parameters of the connection that have a form of their
own.
-/
namespace Matchmaker

inductive UrlError where
  | noScheme
  | emptyHost
  | hostCharacter
  | ipAddress
  | socket
  | encryption (mode : String)
  | number (cause : Decimal.WholeError)
  deriving DecidableEq, Repr

def UrlError.message : UrlError → String
  | .noScheme => "relative URL without a base"
  | .emptyHost => "empty host"
  | .hostCharacter => "invalid domain character"
  | .ipAddress => "invalid IPv6 address"
  | .socket => "invalid port number"
  | .encryption mode =>
    "error with configuration: unknown value \"" ++ mode ++ "\" for `ssl_mode`"
  | .number cause => cause.message

namespace DatabaseUrl

def isLetter (c : Char) : Bool := ('a' ≤ c && c ≤ 'z') || ('A' ≤ c && c ≤ 'Z')

def isSchemeChar (c : Char) : Bool :=
  isLetter c || (Decimal.digitValue? c).isSome || c = '+' || c = '-' || c = '.'

def afterScheme? (cs : List Char) : Option (List Char) :=
  match cs.dropWhile isSchemeChar with
  | ':' :: rest => if cs.head?.any isLetter then some rest else none
  | _ => none

def endsAuthority (c : Char) : Bool := c = '/' || c = '?' || c = '#'

def isForbidden (c : Char) : Bool :=
  ['\x00', ' ', '<', '>', '@', '[', '\\', ']', '^', '|'].contains c

def isHexDigit (c : Char) : Bool := (Text.hexValue? c).isSome

def isGroup (cs : List Char) : Bool := !cs.isEmpty && cs.length ≤ 4 && cs.all isHexDigit

/-- The last two groups of an address written as four decimal numbers. -/
def isDotted (cs : List Char) : Bool :=
  let numbers := cs.splitOn '.'
  numbers.length = 4 && numbers.all fun number =>
    (Decimal.readNat 255 (String.ofList number)).toOption.isSome && number.head?.any Decimal.isDigit
      && (number.head? ≠ some '0' || number.length = 1)

def groupCount? (cs : List Char) : Option Nat :=
  let groups := if cs.isEmpty then [] else cs.splitOn ':'
  if groups.all isGroup then some groups.length
  else if groups.dropLast.all isGroup && isDotted (groups.getLastD []) then some (groups.length + 1)
  else none

def splitAtGap : List Char → Option (List Char × List Char)
  | ':' :: ':' :: rest => some ([], rest)
  | c :: rest => (splitAtGap rest).map fun (before, after) => (c :: before, after)
  | [] => none

/-- Eight groups, some of which a double colon may stand for. -/
def isAddress (cs : List Char) : Bool :=
  match splitAtGap cs with
  | none => groupCount? cs = some 8
  | some (before, after) =>
    before.all (fun c => c = ':' || isHexDigit c) && match groupCount? before, groupCount? after with
      | some m, some n => m + n ≤ 8
      | _, _ => false

def checkSocket (cs : List Char) : Except UrlError Unit :=
  if !cs.all fun c => (Decimal.digitValue? c).isSome then .error .socket
  else if Decimal.ofDigits (cs.filterMap Decimal.digitValue?) ≤ 65535 then .ok ()
  else .error .socket

/-- Splits off a host: up to a colon that is not between brackets. -/
def splitHost (inside : Bool) : List Char → List Char × List Char
  | [] => ([], [])
  | c :: rest =>
    if c = ':' && !inside then ([], c :: rest)
    else
      let (host, rest) := splitHost (if c = '[' then true else if c = ']' then false else inside) rest
      (c :: host, rest)

def checkHost (hasUser : Bool) (cs : List Char) : Except UrlError Unit :=
  let (host, rest) := splitHost false cs
  if host.head? = some '[' then
    if host.getLast? = some ']' && isAddress (host.drop 1).dropLast then checkSocket (rest.drop 1)
    else .error .ipAddress
  else if host.any isForbidden || host.contains ':' then .error .hostCharacter
  else if host.isEmpty && (hasUser || !rest.isEmpty) then .error .emptyHost
  else checkSocket (rest.drop 1)

def checkAuthority (cs : List Char) : Except UrlError Unit :=
  let authority := cs.takeWhile (!endsAuthority ·)
  let host := (authority.reverse.takeWhile (· ≠ '@')).reverse
  checkHost (authority.contains '@') host

def encryptionModes : List String :=
  ["disable", "allow", "prefer", "require", "verify-ca", "verify-full"]

def checkNumber (limit : Nat) (value : String) : Except UrlError Unit :=
  ((Decimal.readNat limit value).mapError .number).map fun _ => ()

/-- Checks one parameter of the connection; most may have any value. -/
def checkParameter (key value : String) : Except UrlError Unit :=
  if key = "sslmode" || key = "ssl-mode" then
    if encryptionModes.contains (String.ofList (Decimal.lowerAscii value.toList)) then .ok ()
    else .error (.encryption value)
  else if key = "port" then checkNumber 65535 value
  else if key = "statement-cache-capacity" then checkNumber Decimal.maxWord64 value
  else .ok ()

def checkParameters (cs : List Char) : Except UrlError Unit :=
  let query := ((cs.takeWhile (· ≠ '#')).dropWhile (· ≠ '?')).drop 1
  (query.splitOn '&').forM fun parameter =>
    checkParameter (String.ofList (parameter.takeWhile (· ≠ '=')))
      (String.ofList ((parameter.dropWhile (· ≠ '=')).drop 1))

/-- Control characters and spaces at the ends do not count, tabs and breaks nowhere. -/
def significant (url : String) : List Char :=
  let isEdge (c : Char) : Bool := c ≤ ' '
  let trimmed := ((url.toList.dropWhile isEdge).reverse.dropWhile isEdge).reverse
  trimmed.filter fun c => !(c = '\t' || c = '\n' || c = '\r')

def check (url : String) : Except UrlError Unit :=
  match afterScheme? (significant url) with
  | none => .error .noScheme
  | some ('/' :: '/' :: rest) => do
    checkAuthority rest
    checkParameters rest
  | some rest => checkParameters rest

end DatabaseUrl

end Matchmaker
