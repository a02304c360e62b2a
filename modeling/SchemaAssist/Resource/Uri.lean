/-
# Splitting URIs

A URI is split into scheme, authority and path; query and fragment are cut off.  Splitting is
lenient: control characters and spaces at the front are skipped, tabs and line breaks anywhere are
dropped, and a text without a scheme is all path.  What it insists on is the authority:

- brackets have to pair up and enclose the host, after which only a colon may follow, and the host
  inside has to be an address that may stand in brackets;
- no character may fall apart into a delimiter of URIs under compatibility normalization.
-/
import SchemaAssist.Resource.HostAddress
import SchemaAssist.Resource.Percent

namespace SchemaAssist.Resource

/-! ## 1. The type -/

/-- The parts of a URI that say which resource it names. -/
structure Uri where
  /-- The scheme in lower case, empty if there is none. -/
  scheme : List Char
  /-- What follows two slashes, up to the next delimiter. -/
  authority : List Char
  /-- What follows the authority, up to the query or the fragment. -/
  path : List Char
  deriving DecidableEq, Repr

/-- Why a text is no URI. -/
inductive UriError where
  /-- Brackets in the authority do not pair up or do not enclose the host. -/
  | strayBracket
  | badHost
  /-- The authority holds a character that falls apart into a delimiter. -/
  | hiddenDelimiter (authority : List Char)
  deriving DecidableEq, Repr

/-- The text of the error, where it has one. -/
def UriError.message? : UriError → Option String
  | .strayBracket => some "Invalid IPv6 URL"
  | .badHost => none
  | .hiddenDelimiter authority =>
    some ("netloc '" ++ String.ofList authority
      ++ "' contains invalid characters under NFKC normalization")

/-! ## 2. The parts -/

/-- Whether a character is skipped at the front: a control or a space. -/
def isSkipped (c : Char) : Bool := c.toNat ≤ 0x20

/-- Whether a character is dropped wherever it stands. -/
def isDropped (c : Char) : Bool := c == '\t' || c == '\r' || c == '\n'

/-- Whether a character can be part of a scheme. -/
def isSchemePart (c : Char) : Bool :=
  c.isAlphanum || c == '+' || c == '-' || c == '.'

/-- The scheme of a URI in lower case, and what follows its colon; without a scheme, all of it. -/
def splitScheme (text : List Char) : List Char × List Char :=
  match cutAtFirst ':' text with
  | (name, some rest) =>
    if name.all isSchemePart && (name.head?.map Char.isAlpha).getD false then
      (name.map Char.toLower, rest)
    else ([], text)
  | (_, none) => ([], text)

/-- Whether a character ends an authority. -/
def endsAuthority (c : Char) : Bool := c == '/' || c == '?' || c == '#'

/-- The authority at the start of a text, and what follows it. -/
def splitAuthority (text : List Char) : List Char × List Char :=
  match text with
  | '/' :: '/' :: rest =>
    (rest.takeWhile (!endsAuthority ·), rest.dropWhile (!endsAuthority ·))
  | _ => ([], text)

/-! ## 3. The authority -/

/-- What follows the last character `mark` of a text, or all of it. -/
def afterLast (mark : Char) (text : List Char) : List Char :=
  (text.reverse.takeWhile (· != mark)).reverse

/-- The host of an authority with brackets in it, or the error that they are. -/
def bracketedHost (authority : List Char) : Except UriError (List Char) :=
  let host := afterLast '@' authority
  match cutAtFirst '[' host with
  | (before, some inner) =>
    let (address, after) := cutAtFirst ']' inner
    if !before.isEmpty then .error .strayBracket
    else
      match after.getD [] with
      | [] => .ok address
      | ':' :: _ => .ok address
      | _ => .error .strayBracket
  | (_, none) => .ok (cutAtFirst ':' host).1

/-- The characters beyond ASCII that fall apart into a delimiter of URIs. -/
def delimiterLookalikes : List Nat :=
  [0x2047, 0x2048, 0x2049, 0x2100, 0x2101, 0x2105, 0x2106, 0x2a74, 0xfe13, 0xfe16, 0xfe55, 0xfe56,
   0xfe5f, 0xfe6b, 0xff03, 0xff0f, 0xff1a, 0xff1f, 0xff20]

/-- Accepts an authority, or says what is wrong with it. -/
def checkAuthority (authority : List Char) : Except UriError Unit :=
  let opens := authority.contains '['
  let closes := authority.contains ']'
  if opens != closes then .error .strayBracket
  else
    let bracketsOk : Except UriError Unit :=
      if opens then
        match bracketedHost authority with
        | .ok host => if isBracketable host then .ok () else .error .badHost
        | .error e => .error e
      else .ok ()
    match bracketsOk with
    | .error e => .error e
    | .ok () =>
      if authority.any fun c => delimiterLookalikes.contains c.toNat then
        .error (.hiddenDelimiter authority)
      else .ok ()

/-! ## 4. Splitting -/

/-- The text of a URI without what is skipped at its front and dropped inside it. -/
def cleaned (text : List Char) : List Char :=
  (text.dropWhile isSkipped).filter (!isDropped ·)

/-- Whether a character ends a path. -/
def endsPath (c : Char) : Bool := c == '?' || c == '#'

/-- The parts of a URI. -/
def Uri.split (text : List Char) : Except UriError Uri :=
  let (scheme, rest) := splitScheme (cleaned text)
  let (authority, rest) := splitAuthority rest
  match checkAuthority authority with
  | .error e => .error e
  | .ok () => .ok { scheme, authority, path := rest.takeWhile (!endsPath ·) }

end SchemaAssist.Resource
