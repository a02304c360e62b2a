/-
# Hosts in brackets

The host of a URI may stand in brackets if it is an IPv6 address or an address of a future version.
This file decides which texts are such addresses: eight groups of up to four hexadecimal digits, of
which one run may be left out as `::` and the last two may be written as a dotted IPv4 address, with
an optional zone after a percent sign.
-/
import SchemaAssist.Json.Quoted

namespace SchemaAssist.Resource

open SchemaAssist.Json

/-! ## 1. Cutting texts -/

/-- The text before the first character `mark`, and the text after it if there is one. -/
def cutAtFirst (mark : Char) (text : List Char) : List Char × Option (List Char) :=
  match text.dropWhile (· != mark) with
  | [] => (text, none)
  | _ :: rest => (text.takeWhile (· != mark), some rest)

/-- Whether a character is a hexadecimal digit. -/
def isHexDigit (c : Char) : Bool := (hexValue? c).isSome

/-! ## 2. IPv4 -/

/-- A decimal number below 256 without leading zeros. -/
def isOctet (text : List Char) : Bool :=
  !text.isEmpty && text.all Char.isDigit && text.length ≤ 3
    && (text.length == 1 || text.head? != some '0') && Nat.ofDigitChars 10 text 0 ≤ 255

/-- Four numbers with points between them. -/
def isIPv4 (text : List Char) : Bool :=
  let octets := text.splitOn '.'
  octets.length == 4 && octets.all isOctet

/-! ## 3. IPv6 -/

/-- A group of an IPv6 address. -/
def isGroup (text : List Char) : Bool :=
  !text.isEmpty && text.length ≤ 4 && text.all isHexDigit

/-- The parts of an IPv6 address between colons, a dotted address at the end replaced by the two
groups it stands for; `none` if the end has points and is no such address. -/
def groupsOf? (address : List Char) : Option (List (List Char)) :=
  let parts := address.splitOn ':'
  match parts.getLast? with
  | some last =>
    if last.contains '.' then
      if isIPv4 last then some (parts.dropLast ++ [['0'], ['0']]) else none
    else some parts
  | none => none

/-- Whether the groups on one side of the gap `::` are complete: the side may be empty, which shows
as a single empty part, and has no empty part otherwise. -/
def isSide (parts : List (List Char)) : Bool :=
  parts == [[]] || parts.all isGroup

/-- How many groups a side of the gap has. -/
def sideLength (parts : List (List Char)) : Nat :=
  if parts == [[]] then 0 else parts.length

/-- Whether parts between colons are the groups of an address: eight of them, or fewer with one
gap, which is an empty part that is neither the first nor the last. -/
def areGroups (parts : List (List Char)) : Bool :=
  let inner := parts.tail.dropLast
  let gaps := inner.countP (·.isEmpty)
  if gaps = 0 then parts.length == 8 && parts.all isGroup
  else
    let before := parts.take ((inner.takeWhile (!·.isEmpty)).length + 1)
    let after := parts.drop (before.length + 1)
    gaps == 1 && isSide before && isSide after && sideLength before + sideLength after ≤ 7

/-- An IPv6 address, possibly with a zone. -/
def isIPv6 (text : List Char) : Bool :=
  let (address, zone) := cutAtFirst '%' text
  (match zone with
    | none => true
    | some z => !z.isEmpty && !z.contains '%')
  && 3 ≤ (address.splitOn ':').length
  && match groupsOf? address with
    | some parts => parts.length ≤ 9 && areGroups parts
    | none => false

/-- An address of a future version: the letter `v`, a version, a point and a text. -/
def isFutureAddress (text : List Char) : Bool :=
  match text with
  | 'v' :: rest =>
    let (version, address) := cutAtFirst '.' rest
    !version.isEmpty && version.all isHexDigit && address.any (!·.isEmpty)
  | _ => false

/-- Whether a host may stand in brackets. -/
def isBracketable (host : List Char) : Bool :=
  if host.head? == some 'v' then isFutureAddress host else isIPv6 host

example : isBracketable "::ffff:1.2.3.4%eth0".toList = true := by decide +kernel
example : isBracketable "1::2::3".toList = false := by decide +kernel

end SchemaAssist.Resource
