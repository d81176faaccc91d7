import ExportAudit.Text.Quoted

/-!
# Targets of network calls

`targetPath` reduces the target of a network call to its path: scheme, host, query and fragment are dropped. A host in
square brackets must be an address of the sixth version of the internet protocol or of a future one, and a host may not
hold characters that stand for delimiters in compatibility form.
-/

namespace ExportAudit.Url

/-- Why a target is no URL. -/
inductive Fault where
  | brackets
  | futureAddress
  | noAddress (host : String)
  | fourthVersion
  | ambiguousHost (host : String)
  deriving DecidableEq, Repr

/-- The fault in words. -/
def Fault.message : Fault → String
  | .brackets => "Invalid IPv6 URL"
  | .futureAddress => "IPvFuture address is invalid"
  | .noAddress host => Text.quoted host ++ " does not appear to be an IPv4 or IPv6 address"
  | .fourthVersion => "An IPv4 address cannot be in brackets"
  | .ambiguousHost host => "netloc '" ++ host ++ "' contains invalid characters under NFKC normalization"

/-! ## Addresses -/

def isHexDigit (c : Char) : Bool :=
  c.isDigit || ('a' ≤ c && c ≤ 'f') || ('A' ≤ c && c ≤ 'F')

/-- One of the four numbers of an address of the fourth version. -/
def isOctet (ds : List Char) : Bool :=
  match ds with
  | [] => false
  | [c] => c.isDigit
  | c :: cs =>
    (c :: cs).all Char.isDigit && c != '0' && cs.length ≤ 2 &&
      (c :: cs).foldl (fun n d => 10 * n + (d.toNat - '0'.toNat)) 0 ≤ 255

/-- An address of the fourth version: four numbers with dots between. -/
def isFourth (cs : List Char) : Bool :=
  let parts := cs.splitOn '.'
  parts.length == 4 && parts.all isOctet

/-- A group of at most four hexadecimal digits. -/
def isGroup (cs : List Char) : Bool :=
  !cs.isEmpty && cs.length ≤ 4 && cs.all isHexDigit

/-- The groups of an address, where an address of the fourth version at the end counts as two. -/
def groups? (cs : List Char) : Option (List (List Char)) :=
  let parts := cs.splitOn ':'
  match parts.getLast? with
  | some last =>
    if parts.length < 3 then none
    else if last.contains '.' then
      if isFourth last then some (parts.dropLast ++ [['0'], ['0']]) else none
    else some parts
  | none => none

/-- Groups with an omission between them: at most seven are written, and a group may lack only at an end. -/
def isShortened (before after : List (List Char)) : Bool :=
  let before := if before == [[]] then [] else before
  let after := if after == [[]] then [] else after
  before.all isGroup && after.all isGroup && before.length + after.length < 8

/-- The positions of empty groups strictly inside a list. -/
def innerGaps (parts : List (List Char)) : List Nat :=
  (List.range parts.length).filter fun i => 0 < i && i + 1 < parts.length && (parts[i]?.map List.isEmpty).getD false

/-- An address of the sixth version, without its zone. -/
def isSixthPlain (cs : List Char) : Bool :=
  match groups? cs with
  | none => false
  | some parts =>
    if parts.length > 9 then false
    else
      match innerGaps parts with
      | [] => parts.length == 8 && parts.all isGroup
      | [i] => isShortened (parts.take i) (parts.drop (i + 1))
      | _ => false

/-- An address of the sixth version; a zone may follow a percent sign. -/
def isSixth (cs : List Char) : Bool :=
  match cs.span (· != '%') with
  | (address, []) => isSixthPlain address
  | (address, _ :: zone) => !zone.isEmpty && !zone.contains '%' && isSixthPlain address

/-- An address of a future version, behind its `v`. -/
def isFuture (cs : List Char) : Bool :=
  match cs.span isHexDigit with
  | (_ :: _, '.' :: rest) => !rest.isEmpty
  | _ => false

/-- Checks what stands in brackets. -/
def checkAddress (host : String) : Except Fault Unit :=
  match host.toList with
  | 'v' :: rest => if isFuture rest then .ok () else .error .futureAddress
  | cs =>
    if isFourth cs then .error .fourthVersion
    else if isSixth cs then .ok ()
    else .error (.noAddress host)

/-! ## Hosts -/

/-- What stands before and after the first character of a kind, or the whole and nothing. -/
def cutAt (sep : Char) (cs : List Char) : List Char × List Char :=
  ((cs.takeWhile (· != sep)), (cs.dropWhile (· != sep)).drop 1)

/-- A host without the user before its last at sign. -/
def dropUser (host : List Char) : List Char :=
  (host.reverse.takeWhile (· != '@')).reverse

/-- Checks a host with both brackets: nothing but a port may stand around them. -/
def checkBracketed (host : List Char) : Except Fault Unit :=
  let own := dropUser host
  if own.contains '[' then
    let (before, inside) := cutAt '[' own
    let (address, port) := cutAt ']' inside
    if !before.isEmpty || !(port.isEmpty || port.head? == some ':') then .error .brackets
    else checkAddress (String.ofList address)
  else checkAddress (String.ofList (cutAt ':' own).1)

/-- Characters whose compatibility form holds a delimiter of URLs. -/
def isAmbiguous (c : Char) : Bool :=
  [0x2047, 0x2048, 0x2049, 0x2100, 0x2101, 0x2105, 0x2106, 0x2A74, 0xFE13, 0xFE16, 0xFE55, 0xFE56, 0xFE5F, 0xFE6B,
    0xFF03, 0xFF0F, 0xFF1A, 0xFF1F, 0xFF20].contains c.toNat

/-- Checks a host. -/
def checkHost (host : List Char) : Except Fault Unit := do
  let opening := host.contains '['
  let closing := host.contains ']'
  if opening != closing then throw .brackets
  if opening && closing then checkBracketed host
  if host.any isAmbiguous then throw (.ambiguousHost (String.ofList host))

/-! ## Paths -/

/-- Blanks and control characters are dropped in front, and line breaks and tabs everywhere. -/
def clean (cs : List Char) : List Char :=
  (cs.dropWhile (·.toNat ≤ 0x20)).filter fun c => c != '\t' && c != '\r' && c != '\n'

/-- The characters of a scheme. -/
def isSchemeChar (c : Char) : Bool :=
  c.isAlphanum || c == '+' || c == '-' || c == '.'

/-- A URL without its scheme: letters, digits and some signs before the first colon, the first of them a letter. -/
def dropScheme (cs : List Char) : List Char :=
  match cs.span (· != ':') with
  | (scheme, _ :: rest) =>
    if (scheme.head?.map Char.isAlpha).getD false && scheme.all isSchemeChar then rest else cs
  | (_, []) => cs

/-- The characters that end a host. -/
def endsHost (c : Char) : Bool :=
  c == '/' || c == '?' || c == '#'

/-- The host behind two slashes and what follows it; without two slashes there is no host. -/
def splitHost : List Char → List Char × List Char
  | '/' :: '/' :: rest => rest.span fun c => !endsHost c
  | cs => ([], cs)

/-- What stands before the query and the fragment. -/
def dropQuery (cs : List Char) : List Char :=
  cs.takeWhile fun c => c != '?' && c != '#'

/-- A path with a slash in front and none behind, unless it is the slash itself. -/
def normalizePath (cs : List Char) : List Char :=
  let rooted :=
    match cs with
    | '/' :: _ => cs
    | _ => '/' :: cs
  match (rooted.reverse.dropWhile (· == '/')).reverse with
  | [] => ['/']
  | trimmed => trimmed

/-- The path of a target. -/
def targetPath (target : String) : Except Fault String := do
  let (host, rest) := splitHost (dropScheme (clean target.toList))
  checkHost host
  return String.ofList (normalizePath (dropQuery rest))

end ExportAudit.Url
