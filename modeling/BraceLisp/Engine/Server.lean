import BraceLisp.Engine.Duration
import BraceLisp.Engine.Parameters
import BraceLisp.Text.Quoted

/-!
# Names of databases on servers

The name of a database on a server: a user and a password before an at sign, a network with an address in
parentheses, a slash, the name proper, and parameters behind a question mark. All but the slash can be left
out. A name is checked before anyone tries to reach the server.
-/

namespace BraceLisp

inductive ServerProblem where
  | noSlash
  | openAddress
  | strayText
  | noAddress (network : Bytes)
  | badSwitch (value : Bytes)
  | badDuration (value : Bytes) (problem : DurationProblem)
  | badNumber (value : Bytes)
  | hugeNumber (value : Bytes)
  | badEscape (what : Bytes) (problem : ParameterProblem)
  | unknownZone (name : Bytes)
  | badZone
  | noCompression
  | unsafeCollation
  | unknownEncryption (name : Bytes)
  | unknownKey (name : Bytes)
  deriving DecidableEq, Repr

namespace ParameterProblem

def text : ParameterProblem → Bytes
  | .semicolon => Bytes.of "invalid semicolon separator in query"
  | .brokenEscape escape => Bytes.of "invalid URL escape " ++ Quoted.text escape

end ParameterProblem

namespace ServerProblem

def text : ServerProblem → Bytes
  | .noSlash => Bytes.of "invalid DSN: missing the slash separating the database name"
  | .openAddress => Bytes.of "invalid DSN: network address not terminated (missing closing brace)"
  | .strayText => Bytes.of "invalid DSN: did you forget to escape a param value?"
  | .noAddress network => Bytes.of "default addr for network '" ++ network ++ Bytes.of "' unknown"
  | .badSwitch value => Bytes.of "invalid bool value: " ++ value
  | .badDuration value problem => Duration.complaint value problem
  | .badNumber value => Bytes.of "strconv.Atoi: parsing " ++ Quoted.text value ++ Bytes.of ": invalid syntax"
  | .hugeNumber value =>
      Bytes.of "strconv.Atoi: parsing " ++ Quoted.text value ++ Bytes.of ": value out of range"
  | .badEscape what problem => what ++ problem.text
  | .unknownZone name => Bytes.of "unknown time zone " ++ name
  | .badZone => Bytes.of "time: invalid location name"
  | .noCompression => Bytes.of "compression not implemented yet"
  | .unsafeCollation => Bytes.of "invalid DSN: interpolateParams can not be used with unsafe collations"
  | .unknownEncryption name => Bytes.of "invalid value / unknown config name: " ++ name
  | .unknownKey name => Bytes.of "invalid value / unknown server pub key name: " ++ name

end ServerProblem

/-- What the name of a database on a server says, as far as it can be wrong. -/
structure ServerName where
  network : Bytes
  address : Bytes
  encryption : Bytes
  serverKey : Bytes
  collation : Bytes
  fillsIn : Bool
  deriving DecidableEq, Repr

namespace ServerName

def empty : ServerName := ⟨[], [], [], [], [], false⟩

def cutAtLast? (b : UInt8) (s : Bytes) : Option (Bytes × Bytes) :=
  if s.contains b then
    let last := (s.reverse.takeWhile (· != b)).reverse
    some (s.take (s.length - last.length - 1), last)
  else none

/-! ## Parameters -/

def switch (value : Bytes) : Except ServerProblem Bool :=
  if [Bytes.of "1", Bytes.of "true", Bytes.of "TRUE", Bytes.of "True"].contains value then .ok true
  else if [Bytes.of "0", Bytes.of "false", Bytes.of "FALSE", Bytes.of "False"].contains value then .ok false
  else .error (.badSwitch value)

/-- The parameters that are switches and have no part in any check. -/
def switches : List Bytes :=
  ["allowAllFiles", "allowCleartextPasswords", "allowNativePasswords", "allowOldPasswords",
   "checkConnLiveness", "clientFoundRows", "columnsWithAlias", "multiStatements", "parseTime",
   "rejectReadOnly"].map Bytes.of

def durations : List Bytes := ["readTimeout", "timeout", "writeTimeout"].map Bytes.of

/-- A value without escapes; `what` starts the complaint about a broken one. -/
def decoded (what : String) (value : Bytes) : Except ServerProblem Bytes :=
  (Parameters.decode value).mapError (.badEscape (Bytes.of what))

def checkNumber (value : Bytes) : Except ServerProblem Unit :=
  let (isNegative, digits) := match value with
    | 0x2D :: rest => (true, rest)
    | 0x2B :: rest => (false, rest)
    | s => (false, s)
  if digits.isEmpty ∨ ¬ digits.all Duration.isDigit then .error (.badNumber value)
  else
    let n := Duration.numberOf digits
    if n < Duration.limit ∨ (isNegative ∧ n = Duration.limit) then .ok () else .error (.hugeNumber value)

def hasWayUp : Bytes → Bool
  | 0x2E :: 0x2E :: _ => true
  | _ :: rest => hasWayUp rest
  | [] => false

/-- Checks that a name is that of a time zone, of which only the simplest are known. -/
def checkZone (name : Bytes) : Except ServerProblem Unit :=
  if name.isEmpty ∨ name = Bytes.of "UTC" ∨ name = Bytes.of "Local" then .ok ()
  else if hasWayUp name ∨ name.head? = some 0x2F ∨ name.head? = some 0x5C then .error .badZone
  else .error (.unknownZone name)

def toLower (b : UInt8) : UInt8 := if 0x41 ≤ b && b ≤ 0x5A then b + 0x20 else b

def encryptionOf (value : Bytes) : Except ServerProblem Bytes :=
  match switch value with
  | .ok true => .ok (Bytes.of "true")
  | .ok false => .ok (Bytes.of "false")
  | .error _ =>
      let lower := value.map toLower
      if lower = Bytes.of "skip-verify" ∨ lower = Bytes.of "preferred" then .ok lower
      else decoded "invalid value for TLS config name: " value

def withParameter (name : ServerName) : Bytes × Bytes → Except ServerProblem ServerName
  | (key, value) =>
      if switches.contains key then do
        let _ ← switch value
        return name
      else if durations.contains key then
        match Duration.problem? value with
        | some problem => .error (.badDuration value problem)
        | none => .ok name
      else if key = Bytes.of "interpolateParams" then do
        return { name with fillsIn := ← switch value }
      else if key = Bytes.of "collation" then .ok { name with collation := value }
      else if key = Bytes.of "compress" then .error .noCompression
      else if key = Bytes.of "loc" then do
        checkZone (← decoded "" value)
        return name
      else if key = Bytes.of "maxAllowedPacket" then do
        checkNumber value
        return name
      else if key = Bytes.of "serverPubKey" then do
        return { name with serverKey := ← decoded "invalid value for server pub key name: " value }
      else if key = Bytes.of "tls" then do
        return { name with encryption := ← encryptionOf value }
      else do
        let _ ← decoded "" value
        return name

/-! ## The whole name -/

def readAddress (name : ServerName) (left : Bytes) : Except ServerProblem ServerName :=
  let place := ((cutAtLast? 0x40 left).map Prod.snd).getD left
  let network := place.takeWhile (· != 0x28)
  match place.dropWhile (· != 0x28) with
  | [] => .ok { name with network }
  | _ :: inside =>
      if inside.getLast? = some 0x29 then .ok { name with network, address := inside.dropLast }
      else if inside.contains 0x29 then .error .strayText
      else .error .openAddress

/-- The orders of characters for which parameters of queries cannot be filled in. -/
def unsafeCollations : List Bytes :=
  ["big5_chinese_ci", "sjis_japanese_ci", "gbk_chinese_ci", "big5_bin", "gb2312_bin", "gbk_bin", "sjis_bin",
   "cp932_japanese_ci", "cp932_bin", "gb18030_chinese_ci", "gb18030_bin", "gb18030_unicode_520_ci"].map Bytes.of

def knownEncryptions : List Bytes :=
  ["", "false", "true", "skip-verify", "preferred"].map Bytes.of

/-- The name with the network and the address that are meant if none are given, if nothing else is wrong. -/
def complete (name : ServerName) : Except ServerProblem ServerName := do
  if name.fillsIn ∧ unsafeCollations.contains name.collation then throw .unsafeCollation
  let network := if name.network.isEmpty then Bytes.of "tcp" else name.network
  let address ←
    if ¬ name.address.isEmpty then pure name.address
    else if network = Bytes.of "tcp" then pure (Bytes.of "127.0.0.1:3306")
    else if network = Bytes.of "unix" then pure (Bytes.of "/tmp/mysql.sock")
    else throw (.noAddress network)
  if ¬ knownEncryptions.contains name.encryption then throw (.unknownEncryption name.encryption)
  if ¬ name.serverKey.isEmpty then throw (.unknownKey name.serverKey)
  return { name with network, address }

def parse (text : Bytes) : Except ServerProblem ServerName :=
  match cutAtLast? 0x2F text with
  | none => if text.isEmpty then complete empty else .error .noSlash
  | some (left, right) => do
      let named ← readAddress empty left
      let name ← (Parameters.assignments (Parameters.cutAt 0x3F right).2).foldlM withParameter named
      complete name

def refusal (name : ServerName) : Bytes :=
  if name.network = Bytes.of "unix" then
    Bytes.of "dial unix " ++ name.address ++ Bytes.of ": connect: no such file or directory"
  else if name.network = Bytes.of "tcp" then
    Bytes.of "dial tcp " ++ name.address ++ Bytes.of ": connect: connection refused"
  else Bytes.of "dial " ++ name.network ++ Bytes.of ": unknown network " ++ name.network

end ServerName

end BraceLisp
