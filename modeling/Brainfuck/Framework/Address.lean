import Brainfuck.Text.Numeral

/-!
# Addresses

The modules below `Brainfuck.Framework` stand for the web framework that the service is built on. They are no part
of the service: they model, as far as the service can tell, how a request reaches a handler and how the fields
of its body are read. Nothing in them knows the service.

The address of a request names a place. A query and a fragment do not matter, and which scheme and which host it has
does not matter either. With both of them the path is taken as it stands. Otherwise it starts at the root, however
many slashes are in front. The steps `.` and `..` are taken first; then characters written as `%` and two hexadecimal
digits are read, twice over.
-/

namespace Brainfuck.Framework

def isSchemeChar (c : Char) : Bool :=
  c.isAlphanum || c = '+' || c = '.' || c = '-'

/-- The scheme of an address, which starts with a letter and ends before a colon, and what follows the
colon. -/
def splitScheme (address : List Char) : List Char × List Char :=
  match address.dropWhile isSchemeChar with
  | ':' :: rest =>
    let scheme := address.takeWhile isSchemeChar
    if scheme.head?.all Char.isAlpha then (scheme, rest) else ([], address)
  | _ => ([], address)

def endsPath (c : Char) : Bool :=
  c = '?' || c = '#'

/-- The authority behind two slashes, and the path with what follows it. -/
def splitAuthority : List Char → List Char × List Char
  | '/' :: '/' :: rest =>
    let inside := fun c => c ≠ '/' && !endsPath c
    (rest.takeWhile inside, rest.dropWhile inside)
  | rest => ([], rest)

/-- The host of an authority: what stands behind the last at sign and before a colon. -/
def hostOf (authority : List Char) : List Char :=
  ((authority.reverse.takeWhile (· ≠ '@')).reverse).takeWhile (· ≠ ':')

/-- The way back from a place after one more step: `.` stays, and `..` goes back, but not beyond the
root. -/
def takeStep (way : List (List Char)) (step : List Char) : List (List Char) :=
  if step = ['.'] then way
  else if step = ['.', '.'] then if way = [[]] then way else way.drop 1
  else step :: way

def takeSteps (steps : List (List Char)) : List (List Char) :=
  (steps.foldl takeStep []).reverse

def resolve (path : List Char) : List Char :=
  ['/'].intercalate (takeSteps (Text.splitAt '/' path))

/-- Read characters written as a percent sign and two hexadecimal digits. A byte beyond ASCII becomes
the character of its number; no place of an app has such characters. -/
def percentDecode : List Char → List Char
  | '%' :: a :: b :: rest =>
    match Text.hexDigitValue? a, Text.hexDigitValue? b with
    | some high, some low => Char.ofNat (high * 16 + low) :: percentDecode rest
    | _, _ => '%' :: percentDecode (a :: b :: rest)
  | c :: rest => c :: percentDecode rest
  | [] => []

/-- The place an address names. -/
def placeOf (address : List Char) : List Char :=
  let (scheme, behindScheme) := splitScheme address
  let (authority, behindHost) := splitAuthority behindScheme
  let path := behindHost.takeWhile fun c => !endsPath c
  let isBare := scheme.isEmpty && authority.all fun c => c = '@' || c = ':'
  let path := if isBare then path else resolve path
  let isWhole := !scheme.isEmpty && !(hostOf authority).isEmpty
  let path := if isWhole then path else resolve ('/' :: path.dropWhile (· = '/'))
  percentDecode (percentDecode path)

/-- A place as handlers are filed under it. Slashes at the end do not matter, nor does one line feed in front of
them. -/
def barePlace (place : List Char) : List Char :=
  let bare := Text.dropEndWhile (· = '/') place
  if bare.getLast? = some '\n' then bare.dropLast else bare

end Brainfuck.Framework
