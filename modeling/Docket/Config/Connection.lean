import Docket.Config.Basic
import Docket.Config.Location

/-! # Connections

Before it is started a service has no client, and it can be connected to a database only if its
configuration names one that opens: one in memory, a file that is there, or a file that may be
made in a directory that is there.
-/

namespace Docket.Config

open Docket.Text

/-- Words for the use of a service that is not started. -/
def notStarted : String := "Service not initialized"

/-- How a database is opened. -/
structure Opening where
  /-- The name of a file, or empty for a database of its own. -/
  name : List Char
  inMemory : Bool := false
  /-- What is allowed: 1 to read, 2 to write as well, 6 to make the file as well. -/
  rights : Nat := 2
  /-- The layer below the database that is asked for by its name. -/
  layer : Option (List Char) := none

namespace Opening

/-! ## Escapes -/

/-- Bytes of a text in which a percent sign and two hexadecimal digits stand for a byte. -/
def unescaped : List Char → List UInt8
  | '%' :: a :: b :: rest =>
    match hexDigit? a, hexDigit? b with
    | some m, some n => (16 * m + n).toUInt8 :: unescaped rest
    | _, _ => '%'.toUInt8 :: unescaped (a :: b :: rest)
  | c :: rest => String.utf8EncodeChar c ++ unescaped rest
  | [] => []

def unescape? (cs : List Char) : Option String := String.fromUTF8? ⟨(unescaped cs).toArray⟩

/-- What follows a beginning of a text, without all repetitions of it. -/
def dropRepeated (start : List Char) : Nat → List Char → List Char
  | 0, cs => cs
  | n + 1, cs =>
    if start.isPrefixOf cs then dropRepeated start n (cs.drop start.length) else cs

def cut (c : Char) (cs : List Char) : List Char × List Char :=
  let before := cs.takeWhile (· != c)
  (before, cs.drop (before.length + 1))

/-! ## Parameters of a location -/

/-- Parameters of a location as they were given. -/
structure Wishes where
  inMemory : Bool := false
  readOnly : Bool := false
  makes : Bool := false
  immutable : Bool := false
  layer : Option (List Char) := none

namespace Wishes

def add? (w : Wishes) (key value : String) : Option Wishes :=
  if key = "mode" then
    if value = "ro" then some { w with readOnly := true }
    else if value = "rw" then some w
    else if value = "rwc" then some { w with makes := true }
    else if value = "memory" then some { w with inMemory := true }
    else none
  else if key = "cache" then
    if value = "private" ∨ value = "shared" then some w else none
  else if key = "immutable" then
    if value = "true" ∨ value = "1" then some { w with immutable := true }
    else if value = "false" ∨ value = "0" then some { w with immutable := false }
    else none
  else if key = "vfs" then some { w with layer := some value.toList }
  else none

/-- The wishes of parameters, in which a plus sign stands for a space. -/
def ofParameters? (w : Wishes) (cs : List Char) : Option Wishes :=
  ((cs.splitOn '&').filter (· ≠ [])).foldlM (fun (w : Wishes) parameter => do
    let (key, value) := cut '=' (parameter.map fun c => if c = '+' then ' ' else c)
    w.add? (← unescape? key) (← unescape? value)) w

def rights (w : Wishes) : Nat := if w.readOnly then 1 else if w.makes then 6 else 2

end Wishes

/-! ## Names with parameters of their own -/

/-- Characters in which a percent sign and two hexadecimal digits stand for a byte; the byte zero
ends them. -/
def octets : List Char → List Char
  | '%' :: a :: b :: rest =>
    match hexDigit? a, hexDigit? b with
    | some m, some n => if 16 * m + n = 0 then [] else Char.ofNat (16 * m + n) :: octets rest
    | _, _ => '%' :: octets (a :: b :: rest)
  | c :: rest => c :: octets rest
  | [] => []

/-- An opening with a parameter of its name; parameters that are not known do nothing. What is
allowed can only become less, unless the database is in memory. -/
def adjusted? (o : Opening) (key value : List Char) : Option Opening :=
  let allow (rights : Nat) : Option Opening :=
    if o.inMemory ∨ rights ≤ o.rights then some { o with inMemory := false, rights := rights }
    else none
  if key = "vfs".toList then some { o with layer := some value }
  else if key = "cache".toList then
    if value = "private".toList ∨ value = "shared".toList then some o else none
  else if key = "mode".toList then
    if value = "ro".toList then allow 1
    else if value = "rw".toList then allow 2
    else if value = "rwc".toList then allow 6
    else if value = "memory".toList then some { o with inMemory := true, rights := 0 }
    else none
  else some o

/-- The path in what follows `file:`, after an authority that may only name this machine. -/
def localPath? (cs : List Char) : Option (List Char) :=
  match cs with
  | '/' :: '/' :: rest =>
    let host := rest.takeWhile (· != '/')
    if host = [] ∨ host = "localhost".toList then some (rest.drop host.length) else none
  | _ => some cs

/-- An opening in which a name that starts with `file:` is taken apart. -/
def resolved? (o : Opening) : Option Opening :=
  if "file:".toList.isPrefixOf o.name then do
    let rest ← localPath? (o.name.drop 5)
    let (path, query) := cut '?' (rest.takeWhile (· != '#'))
    let parameters := (query.splitOn '&').map fun parameter =>
      let (key, value) := cut '=' parameter
      (octets key, octets value)
    (parameters.filter fun p => p.1 ≠ []).foldlM (fun (o : Opening) p => o.adjusted? p.1 p.2)
      { o with name := octets path }
  else some o

/-! ## Files -/

def layers : List String := ["unix", "unix-none", "unix-dotfile", "unix-excl", "memdb"]

/-- Files that are there on every machine, as the names on their paths. -/
def files : List (List String) :=
  [["dev", "null"], ["dev", "zero"], ["etc", "passwd"], ["etc", "group"], ["etc", "hosts"]]

/-- Directories in which files can be made on every machine, and the one at the root. -/
def directories : List (List String) := [[], ["tmp"], ["var", "tmp"], ["dev", "shm"]]

/-- The names on a path, without those that stand for staying or going back. -/
def normalized (names : List (List Char)) : List String :=
  (names.foldl (fun (path : List String) name =>
    if name = [] ∨ name = ['.'] then path
    else if name = ['.', '.'] then path.drop 1
    else String.ofList name :: path) []).reverse

/-- Whether a file with a name opens, with what is allowed on it. A name that does not start with
a slash is one in the directory of the service, where nothing is known to be. -/
def fileOpens (name : List Char) (rights : Nat) : Bool :=
  let path := normalized (name.splitOn '/')
  let isNew := path != [] && rights == 6 && path.all fun s => decide (s.utf8ByteSize < 256)
  if name.head? = some '/' then
    files.contains path
      || (isNew && !directories.contains path && directories.contains path.dropLast)
  else isNew && path.length == 1

def succeeds (o : Opening) : Bool :=
  match o.resolved? with
  | none => false
  | some o =>
    (o.layer.all fun l => layers.contains (String.ofList l))
      && (o.inMemory || o.name == [] || o.name == ":memory:".toList
        || o.layer == some "memdb".toList || fileOpens o.name o.rights)

/-- The opening of a location. Only without further parameters is its name taken apart, and only
then may it not hold the character zero. -/
def ofLocation? (cs : List Char) : Option Opening := do
  let schemeless := dropRepeated "sqlite:".toList cs.length
    (dropRepeated "sqlite://".toList cs.length cs)
  let (name, parameters) := cut '?' schemeless
  let isMemory := name == ":memory:".toList
  let w ← Wishes.ofParameters? { inMemory := isMemory } parameters
  let name ← if isMemory then some [] else (unescape? name).map String.toList
  let o : Opening := ⟨name, w.inMemory, w.rights, w.layer⟩
  if w.immutable ∨ w.layer.isSome then
    some { o with name := "file:".toList ++ name.flatMap fun c =>
      (String.utf8EncodeChar c).flatMap fun b => '%' :: hexDigits 2 b.toNat }
  else if name.contains '\x00' then none
  else some o

end Opening

def opens (url : String) : Bool :=
  Location.hasScheme "sqlite".toList url.toList
    && (Opening.ofLocation? url.toList).any Opening.succeeds

/-- Why a service with a configuration cannot be connected, if it cannot. -/
def connectFailure? (c : Config) : Option String :=
  match c.databaseUrl with
  | none => some "database_url is not configured"
  | some url => if opens url then none else some "failed to connect to document database"

end Docket.Config
