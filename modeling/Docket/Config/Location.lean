import Docket.Text.Numeral

/-! # Locations

Locations of databases are URLs. Of a scheme without rules of its own, a location has whatever it
likes behind the colon, unless that starts with two slashes: then an authority follows them, with
an optional user, a host and an optional port.
-/

namespace Docket.Config

open Docket.Text

namespace Location

/-- The characters that count: those between control characters and spaces at both ends, without
tabs and ends of lines. -/
def counted (cs : List Char) : List Char :=
  let trimmed (cs : List Char) : List Char := cs.dropWhile fun c => decide (c ≤ ' ')
  ((trimmed (trimmed cs).reverse).reverse).filter fun c => c != '\t' && c != '\n' && c != '\r'

def afterScheme? (scheme cs : List Char) : Option (List Char) :=
  match cs.drop scheme.length with
  | ':' :: rest =>
    if (cs.take scheme.length).map Char.toLower = scheme then some rest else none
  | _ => none

/-! ## Hosts -/

/-- Four numbers of a byte each, without zeros that they do not need, between points. -/
def isDotted (cs : List Char) : Bool :=
  let parts := cs.splitOn '.'
  parts.length == 4 && parts.all fun ds =>
    ds != [] && ds.all Char.isDigit && (ds.length == 1 || ds.head? != some '0')
      && decide (valueOf ds ≤ 255)

/-- The rest of an address of eight groups, of which some were read; a gap between two colons
counts as one group and stands for any number of them. -/
def isAddress : Nat → Nat → Bool → List Char → Bool
  | 0, _, _, _ => false
  | _, groups, hasGap, [] => hasGap || groups == 8
  | fuel + 1, groups, hasGap, c :: cs =>
    if groups == 8 then false
    else if c == ':' then !hasGap && isAddress fuel (groups + 1) true cs
    else
      let ds := ((c :: cs).take 4).takeWhile fun c => (hexDigit? c).isSome
      match (c :: cs).drop ds.length with
      | [] => isAddress fuel (groups + 1) hasGap []
      | ':' :: rest => rest != [] && isAddress fuel (groups + 1) hasGap rest
      | '.' :: _ =>
        ds != [] && decide (groups ≤ 6) && isDotted (c :: cs) && (hasGap || groups == 6)
      | _ => false

def isBracketed (cs : List Char) : Bool :=
  match cs with
  | ':' :: ':' :: rest => isAddress (cs.length + 1) 1 true rest
  | ':' :: _ => false
  | _ => decide (2 ≤ cs.length) && isAddress (cs.length + 1) 0 false cs

def isForbidden (c : Char) : Bool :=
  ['\x00', ' ', '#', '/', ':', '<', '>', '?', '@', '[', '\\', ']', '^', '|'].contains c

/-- A name, which may be empty, or an address in brackets. -/
def isHost (cs : List Char) : Bool :=
  match cs with
  | '[' :: rest => rest.getLast? == some ']' && isBracketed rest.dropLast
  | _ => !cs.any isForbidden

/-- A host and what follows it, from a colon outside brackets on. -/
def splitHost : Bool → List Char → List Char × List Char
  | _, [] => ([], [])
  | inBrackets, c :: cs =>
    if c == ':' && !inBrackets then ([], c :: cs)
    else
      let (host, rest) := splitHost (c == '[' || (inBrackets && c != ']')) cs
      (c :: host, rest)

/-- Digits up to the end or a backslash, below two to the power 16. -/
def isPort (cs : List Char) : Bool :=
  let ds := cs.takeWhile (· != '\\')
  ds.all Char.isDigit && decide (valueOf ds < 0x10000)

/-- A host and a port, of which a host that is not empty is needed by a user and by a port. -/
def isHostPort (hasUser : Bool) (cs : List Char) : Bool :=
  let (host, port) := splitHost false cs
  isHost host && (host != [] || (!hasUser && port == [])) && isPort (port.drop 1)

/-- What stands between two slashes and the next one or another end of the authority. A user ends
at the last `@`. -/
def isAuthority (authority rest : List Char) : Bool :=
  let host := (authority.reverse.takeWhile (· != '@')).reverse
  if host.length = authority.length then isHostPort false authority
  else
    let user := authority.take (authority.length - host.length - 1)
    if user = [] ∧ host = [] then rest == []
    else isHostPort (user != [] && user != [':']) host

def hasScheme (scheme : List Char) (text : List Char) : Bool :=
  match afterScheme? scheme (counted text) with
  | none => false
  | some ('/' :: '/' :: rest) =>
    let authority := rest.takeWhile fun c => c != '/' && c != '?' && c != '#'
    isAuthority authority (rest.drop authority.length)
  | some _ => true

end Location

end Docket.Config
