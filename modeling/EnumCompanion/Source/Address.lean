import EnumCompanion.Text.Quoted

/-!
# Web addresses

A web address has a *scheme*, what stands before the first colon, and an
*authority*, what stands between two slashes and the next slash, question mark
or number sign. An address that lacks one of them names no source.

The host of an authority follows its last at sign. If there are brackets in the
authority, the host is a numeric address of the sixth version of the protocol or
a later one; brackets of the host enclose it, and only a port may stand behind
them. No character of an authority may stand for one of the delimiters. Other
addresses are malformed.

* `Address.hostOf`: the host of an authority with brackets;
* `Address.read`: the scheme and the authority of an address.
-/

namespace EnumCompanion

/-- A web address as far as it is read. -/
structure Address where
  /-- The scheme. -/
  scheme : Text
  /-- The authority. -/
  authority : Text
  deriving DecidableEq

namespace Address

/-- Why an address is malformed. -/
inductive Fault where
  /-- There is a bracket of one kind only, or brackets do not enclose the
      host. -/
  | misplacedBracket
  /-- The host looks like an address of a later version and is none. -/
  | badLaterVersion
  /-- The host is an address of the fourth version. -/
  | fourthVersion
  /-- The host is no address. -/
  | notNumeric (host : Text)
  /-- A character of the authority stands for a delimiter. -/
  | hiddenDelimiter (authority : Text)
  deriving DecidableEq

/-- The wording of a fault. -/
def Fault.message : Fault → String
  | misplacedBracket => "Invalid IPv6 URL"
  | badLaterVersion => "IPvFuture address is invalid"
  | fourthVersion => "An IPv4 address cannot be in brackets"
  | notNumeric host =>
    s!"{host.quoted.str} does not appear to be an IPv4 or IPv6 address"
  | hiddenDelimiter authority =>
    s!"netloc '{authority.str}' contains invalid characters under NFKC normalization"

/-! ### Parts -/

/-- An address without the blanks and controls before it and without line ends
    and tabs. -/
def tidied (text : Text) : Text :=
  (text.dropWhile fun c => c.toNat ≤ 32).filter fun c => c ∉ ['\t', '\r', '\n']

/-- The characters of a scheme. -/
def isSchemeChar (c : Char) : Bool := c.isAlphanum || c ∈ ['+', '-', '.']

/-- The scheme of an address and what follows its colon. -/
def splitScheme (text : Text) : Text × Text :=
  let scheme := text.takeWhile (· != ':')
  match text.drop scheme.length with
  | _ :: rest =>
    if scheme.head?.any Char.isAlpha && scheme.all isSchemeChar then (scheme, rest) else ([], text)
  | [] => ([], text)

/-- The characters that end an authority. -/
def endsAuthority (c : Char) : Bool := c ∈ ['/', '?', '#']

/-- The authority at the head of what follows a scheme. -/
def authorityOf : Text → Text
  | '/' :: '/' :: rest => rest.takeWhile (!endsAuthority ·)
  | _ => []

/-! ### Numeric addresses -/

/-- Whether a text is a number below 256 without superfluous zeros. -/
def isOctet (text : Text) : Bool :=
  text ≠ [] && text.length ≤ 3 && text.all Char.isDigit &&
    (text = ['0'] || text.head? ≠ some '0') &&
    text.foldl (fun value c => value * 10 + (c.toNat - 48)) 0 ≤ 255

/-- Whether a text is an address of the fourth version: four numbers and dots
    between them. -/
def isFourthVersion (text : Text) : Bool :=
  (text.splitOn '.').length = 4 && (text.splitOn '.').all isOctet

/-- Hexadecimal digits. -/
def isHexDigit (c : Char) : Bool := c.isDigit || ('a' ≤ c && c ≤ 'f') || ('A' ≤ c && c ≤ 'F')

/-- Whether a text is a group of an address of the sixth version. -/
def isGroup (text : Text) : Bool := text ≠ [] && text.length ≤ 4 && text.all isHexDigit

/-- The groups of an address, where one of the fourth version at its end stands
    for two. -/
def groupsOf (text : Text) : Option (List Text) :=
  let groups := text.splitOn ':'
  match groups.getLast? with
  | some last =>
    if groups.length < 3 then none
    else if '.' ∈ last then
      if isFourthVersion last then some (groups.dropLast ++ [['0'], ['0']]) else none
    else some groups
  | none => none

/-- Groups on one side of a gap, none if there is an empty one only. -/
def besideGap (groups : List Text) : List Text := if groups = [[]] then [] else groups

/-- Whether groups make up an address: eight of them, or fewer on the two sides
    of a gap, the first empty group that is neither at the start nor at the
    end. -/
def areComplete (groups : List Text) : Bool :=
  -- An address starts or ends with a colon only where the gap is there.
  match groups.dropLast.tail.findIdx? List.isEmpty with
  | some index =>
    let before := besideGap (groups.take (index + 1))
    let behind := besideGap (groups.drop (index + 2))
    before.all isGroup && behind.all isGroup && before.length + behind.length < 8
  | none => groups.length = 8 && groups.all isGroup

/-- Whether a text is an address of the sixth version, with or without the name
    of a zone behind a percent sign. -/
def isSixthVersion (text : Text) : Bool :=
  match text.splitOn '%' with
  | [address] => (groupsOf address).any areComplete
  | [address, zone] => zone ≠ [] && (groupsOf address).any areComplete
  | _ => false

/-- Whether a text is an address of a later version: the version in hexadecimal
    digits behind a `v`, a dot, and anything. -/
def isLaterVersion (text : Text) : Bool :=
  let digits := (text.drop 1).takeWhile isHexDigit
  digits ≠ [] && match text.drop (digits.length + 1) with
    | '.' :: rest => rest ≠ []
    | _ => false

/-! ### Reading -/

/-- What follows the last at sign of an authority: the host and the port. -/
def behindUser (authority : Text) : Text := (authority.reverse.takeWhile (· != '@')).reverse

/-- A text up to a character, and what follows that character. -/
def cutAt (c : Char) (text : Text) : Text × Text :=
  (text.takeWhile (· != c), (text.dropWhile (· != c)).drop 1)

/-- The host of an authority with brackets. Where a bracket opens, the host is
    in brackets, nothing stands before them, and a colon is next to them. -/
def hostOf (authority : Text) : Except Fault Text :=
  let place := behindUser authority
  if '[' ∈ place then
    let (before, enclosed) := cutAt '[' place
    let (host, behind) := cutAt ']' enclosed
    if before ≠ [] ∨ (behind ≠ [] ∧ behind.head? ≠ some ':') then .error .misplacedBracket
    else .ok host
  else .ok (cutAt ':' place).1

/-- The fault of a host of an authority with brackets, if there is one. -/
def hostFault? (host : Text) : Option Fault :=
  if host.head? = some 'v' then if isLaterVersion host then none else some .badLaterVersion
  else if isFourthVersion host then some .fourthVersion
  else if isSixthVersion host then none
  else some (.notNumeric host)

/-- The characters that stand for a delimiter or for a sequence with one. -/
def hidesDelimiter (c : Char) : Bool :=
  c.toNat ∈ [0x2047, 0x2048, 0x2049, 0x2100, 0x2101, 0x2105, 0x2106, 0x2A74, 0xFE13, 0xFE16,
    0xFE55, 0xFE56, 0xFE5F, 0xFE6B, 0xFF03, 0xFF0F, 0xFF1A, 0xFF1F, 0xFF20]

/-- The fault of the brackets in an authority, if there is one. -/
def bracketFault? (authority : Text) : Option Fault :=
  if '[' ∈ authority ∧ ']' ∈ authority then
    match hostOf authority with
    | .ok host => hostFault? host
    | .error fault => some fault
  else if '[' ∈ authority ∨ ']' ∈ authority then some .misplacedBracket
  else none

/-- The fault of an authority, if there is one. -/
def authorityFault? (authority : Text) : Option Fault :=
  bracketFault? authority <|>
    if authority.any hidesDelimiter then some (.hiddenDelimiter authority) else none

/-- The scheme and the authority of an address; either may be empty. -/
def read (text : Text) : Except Fault Address :=
  let (scheme, rest) := splitScheme (tidied text)
  match authorityFault? (authorityOf rest) with
  | some fault => .error fault
  | none => .ok ⟨scheme, authorityOf rest⟩

/-- Whether an address names a source. -/
def isComplete (address : Address) : Bool := address.scheme ≠ [] && address.authority ≠ []

end Address

end EnumCompanion
