/-
The neighbour cache as the passive network connector reads it, `agentic/netconnect/client.py`.

What the command of the platform has written is read line by line, each in the format of the
platform (`neighborLines`), and of the neighbours with one address, interface and hardware address
the first one stays.  `arp_neighbors` keeps those whose address is in scope, rewrites their
interfaces (`scopeInterface`), sorts them and returns the first of them.

The digits that an expression accepts and the case of a letter are Python's tables, `CharTables`.
-/
import CyClaw.Lib.LinePieces
import CyClaw.Netconnect.Scope
import CyClaw.Sql.Guard
import Mathlib.Data.Char
import Mathlib.Data.List.Lex
import Mathlib.Data.List.Sort
import Mathlib.Data.Prod.Lex

namespace CyClaw.Netconnect

open IpAddress PyText Regex
open Sql (caselessWord pyWord)

/-- What the tables of Python's Unicode database say. -/
structure CharTables where
  lower : Text → Text
  upper : Text → Text
  /-- `unicodedata.decimal`, which says what `\d` accepts. -/
  decimal : Char → Option ℕ
  /-- `\w` beyond ASCII. -/
  word : Char → Bool
  not_isUpper_lower : ∀ t, ∀ c ∈ lower t, c.isUpper = false
  decimal_of_isDigit : ∀ c : Char, c.isDigit = true → decimal c = some (c.toNat - 48)

/-! ### Expressions -/

/-- `r{n}`. -/
def times : ℕ → Re → Re
  | 0, _ => .eps
  | n + 1, r => .seq r (times n r)

/-- The texts of the groups of the first match that begins here.  A part is a group or is not. -/
def groupsAt (w : Char → Bool) : List (Bool × Re) → Pos → Option (List Text)
  | [], _ => some []
  | (isGroup, r) :: parts, z =>
      (ends w r z).findSome? fun m =>
        (groupsAt w parts m).map fun texts =>
          if isGroup then z.after.take (z.after.length - m.after.length) :: texts else texts

variable (u : CharTables)

/-- `re.match`. -/
def matchGroups (parts : List (Bool × Re)) (t : Text) : Option (List Text) := groupsAt (pyWord u.word) parts ⟨[], t⟩

def digitsRe : Re := .plus (.cls fun c => (u.decimal c).isSome)

/-- `\d+(?:\.\d+){3}`. -/
def quadRe : Re := .seq (digitsRe u) (times 3 (.seq (.cls (· == '.')) (digitsRe u)))

def spacesRe : Re := .plus (.cls isSpace)

/-- `\S+`. -/
def wordRe : Re := .plus (.cls fun c => !isSpace c)

/-- `_WINDOWS_INTERFACE_RE`. -/
def windowsInterfaceRe : List (Bool × Re) :=
  [(false, .seq (.star (.cls isSpace)) (.seq (caselessWord "interface:") spacesRe)), (true, quadRe u), (false, .boundary)]

/-- `_WINDOWS_ENTRY_RE`. -/
def windowsEntryRe : List (Bool × Re) :=
  [(false, .star (.cls isSpace)), (true, quadRe u), (false, spacesRe),
    (true, .alt (times 17 (.cls fun c => isHex c || c == ':' || c == '-')) (times 12 (.cls isHex))),
    (false, spacesRe), (true, wordRe)]

/-- `_DARWIN_ENTRY_RE`. -/
def darwinEntryRe : List (Bool × Re) :=
  [(false, .seq wordRe (.seq spacesRe (.cls (· == '(')))), (true, .plus (.cls (· != ')'))),
    (false, .seq (.cls (· == ')')) (.seq spacesRe (.seq (caselessWord "at") spacesRe))), (true, wordRe),
    (false, .seq spacesRe (.seq (caselessWord "on") spacesRe)), (true, wordRe)]

/-! ### Hardware addresses -/

def lowerHex (c : Char) : Bool := c.isDigit || ('a' ≤ c && c ≤ 'f')

/-- Pairs of digits, one more than `n`, with a separator between any two. -/
def pairsShaped (hex sep : Char → Bool) : ℕ → Text → Bool
  | 0, [a, b] => hex a && hex b
  | n + 1, a :: b :: c :: t => hex a && hex b && sep c && pairsShaped hex sep n t
  | _, _ => false

/-- `_MAC_RE.fullmatch`. -/
def macShaped (t : Text) : Bool := pairsShaped isHex (fun c => c = ':' || c = '-') 5 t

/-- `value[index:index + 2]` at every other index. -/
def pairs : Text → List Text
  | a :: b :: t => [a, b] :: pairs t
  | _ => []

def incompleteMacs : List Text := ["(incomplete)".toList, "incomplete".toList, "<incomplete>".toList]

/-- `_normalize_mac`. -/
def normalizeMac (raw : Text) : Option Text :=
  let value := u.lower (strip raw)
  if value ∈ incompleteMacs then none
  else if value.length = 12 ∧ value.all lowerHex then some ([':'].intercalate (pairs value))
  else if !macShaped value then none
  else some (replace ['-'] [':'] value)

/-! ### Reading a cache -/

structure Neighbor where
  ip : Text
  mac : Option Text
  interface : Text
  state : Text
deriving DecidableEq

/-- `_record`. -/
def record (ip : Text) (mac : Option Text) (interface state : Text) : Option Neighbor :=
  match ipAddress ip with
  | some (.v4 n) =>
      some { ip := dotted n, mac := (mac.filter (· ≠ [])).bind (normalizeMac u), interface := interface, state := u.lower state }
  | _ => none

/-- `arp -a`, with the interface of the last header before the lines. -/
def windowsLines (interface : Text) : List Text → List Neighbor
  | [] => []
  | line :: lines =>
      match matchGroups u (windowsInterfaceRe u) line with
      | some (header :: _) => windowsLines header lines
      | _ =>
          match matchGroups u (windowsEntryRe u) line with
          | some [ip, mac, kind] => (record u ip (some mac) interface kind).toList ++ windowsLines interface lines
          | _ => windowsLines interface lines

/-- `parts[parts.index(word) + 1]`, where there is one. -/
def wordAfter (word : Text) (parts : List Text) : Option Text := parts[parts.idxOf word + 1]?

/-- `_LINUX_STATES`. -/
def linuxStates : List Text :=
  ["INCOMPLETE", "REACHABLE", "STALE", "DELAY", "PROBE", "FAILED", "NOARP", "PERMANENT"].map String.toList

/-- A line of `ip neigh`. -/
def linuxLine (line : Text) : Option Neighbor :=
  let parts := split line
  match parts with
  | [] => none
  | first :: _ =>
      record u first (wordAfter "lladdr".toList parts) ((wordAfter "dev".toList parts).getD [])
        ((parts.reverse.find? fun part => u.upper part ∈ linuxStates).getD "unknown".toList)

/-- A line of `arp -an`. -/
def darwinLine (line : Text) : Option Neighbor :=
  match matchGroups u darwinEntryRe line with
  | some [ip, mac, interface] => record u ip (some mac) interface "cached".toList
  | _ => none

/-- What `arp_neighbors` raises. -/
inductive NetConnectError where
  | opNotAllowed (op : Text)
  | unsupported (platform : Text)
  | notInstalled (platform : Text)
  | timedOut
  | notExecuted (e platform : Text)
  | failed (returncode : ℤ) (platform : Text)
deriving DecidableEq

/-- The neighbours that the lines of the output tell, before any is left out for being told twice. -/
def neighborLines (text systemName : Text) : Except NetConnectError (List Neighbor) :=
  let systemKey := u.lower systemName
  if "win".toList.isPrefixOf systemKey then .ok (windowsLines u [] (pyLines text))
  else if systemKey = "linux".toList then .ok ((pyLines text).filterMap (linuxLine u))
  else if systemKey = "darwin".toList then .ok ((pyLines text).filterMap (darwinLine u))
  else .error (.unsupported systemName)

def Neighbor.key (r : Neighbor) : Text × Text × Option Text := (r.ip, r.interface, r.mac)

/-- `unique.setdefault(key, item)`. -/
def setDefault (unique : List Neighbor) (item : Neighbor) : List Neighbor :=
  if unique.any fun r => r.key = item.key then unique else unique ++ [item]

/-- `parse_neighbor_cache`. -/
def parseNeighborCache (text systemName : Text) : Except NetConnectError (List Neighbor) :=
  (neighborLines u text systemName).map fun records => records.foldl setDefault []

/-! ### What is returned -/

/-- `_scope_interface`. -/
def scopeInterface (scope : ScopePolicy) (raw : Text) : Text :=
  if raw = [] then []
  else match ipAddress raw with
    | none => raw
    | some (.v4 n) => if scope.contains (dotted n) then dotted n else []
    | some (.v6 _ _) => []

/-- A neighbour with its interface rewritten. -/
def Neighbor.scoped (scope : ScopePolicy) (r : Neighbor) : Neighbor := { r with interface := scopeInterface scope r.interface }

/-- The key of the sort. -/
def Neighbor.sortKey (r : Neighbor) : ℕ ×ₗ Text ×ₗ Text :=
  toLex ((ipv4 r.ip).getD 0, toLex (r.interface, r.mac.getD []))

def Neighbor.le (a b : Neighbor) : Prop := a.sortKey ≤ b.sortKey

instance : DecidableRel Neighbor.le := fun _ _ => inferInstanceAs (Decidable (_ ≤ _))

/-- How `subprocess.run` of the command ends. -/
inductive Ran where
  | timedOut
  | osError (e : Text)
  | exited (returncode : ℤ) (stdout : Text)

structure Host where
  systemName : Text
  /-- `_neighbor_command` finds the command of the platform. -/
  installed : Bool
  ran : Ran

structure NetClient where
  allowedNetOps : List Text
  maxNeighbors : ℕ
  scope : ScopePolicy

/-- `NetClient.__init__`, with the list that the configuration has normalized. -/
def NetClient.init (allowedNetOps : List Text) (maxNeighbors : ℕ) (cidrs : List Text) : Except ScopeError NetClient :=
  (ScopePolicy.fromCidrs cidrs).map fun scope => { allowedNetOps := allowedNetOps, maxNeighbors := maxNeighbors, scope := scope }

/-- What `arp_neighbors` returns, but for what is always the same. -/
structure NeighborReport where
  platform : Text
  observedCount : ℕ
  inScopeCount : ℕ
  truncated : Bool
  neighbors : List Neighbor
deriving DecidableEq

def inScope (scope : ScopePolicy) (observed : List Neighbor) : List Neighbor :=
  (observed.filter fun r => scope.contains r.ip).map (Neighbor.scoped scope)

/-- The report on what was observed. -/
def NetClient.report (client : NetClient) (platform : Text) (observed : List Neighbor) : NeighborReport :=
  let sorted := (inScope client.scope observed).insertionSort Neighbor.le
  let neighbors := sorted.take client.maxNeighbors
  { platform := platform, observedCount := observed.length, inScopeCount := sorted.length,
    truncated := neighbors.length < sorted.length, neighbors := neighbors }

/-- There is a branch for the platform. -/
def supported (systemName : Text) : Bool :=
  "win".toList.isPrefixOf (u.lower systemName) || u.lower systemName = "linux".toList || u.lower systemName = "darwin".toList

/-- `NetClient.arp_neighbors`. -/
def NetClient.arpNeighbors (client : NetClient) (host : Host) : Except NetConnectError NeighborReport :=
  if "arp".toList ∉ client.allowedNetOps then .error (.opNotAllowed "arp".toList)
  else if !supported u host.systemName then .error (.unsupported host.systemName)
  else if !host.installed then .error (.notInstalled host.systemName)
  else match host.ran with
    | .timedOut => .error .timedOut
    | .osError e => .error (.notExecuted e host.systemName)
    | .exited returncode stdout =>
        if returncode ≠ 0 then .error (.failed returncode host.systemName)
        else (parseNeighborCache u stdout host.systemName).map (client.report host.systemName)

end CyClaw.Netconnect
