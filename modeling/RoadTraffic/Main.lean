import Std.Async.DNS
import Std.Async.TCP
import Std.Async.Timer
import RoadTraffic.CommandLine.Usage

/-!
# The program

The command line on the machine at hand: its files, its environment, and servers that can be
reached over plain connections. A server that cannot be reached yields nothing.
-/

namespace RoadTraffic

namespace Program

open Std.Async

/-! ## Files -/

/-- The code and the wording of an error of the operating system. -/
def numbered? : IO.Error → Option (UInt32 × String)
  | .alreadyExists _ code text | .invalidArgument _ code text | .permissionDenied _ code text
  | .resourceExhausted _ code text | .inappropriateType _ code text | .noSuchThing _ code text =>
    some (code, text)
  | .interrupted _ code text | .noFileOrDirectory _ code text => some (code, text)
  | .otherError code text | .resourceBusy code text | .resourceVanished code text
  | .unsupportedOperation code text | .hardwareFault code text
  | .unsatisfiedConstraints code text | .illegalOperation code text | .protocolError code text
  | .timeExpired code text => some (code, text)
  | .unexpectedEof | .userError _ => none

/-- The fault with the given number and wording. -/
def faultNumbered (number : Nat) (text : String) : FileFault :=
  match number with
  | 2 => .notFound
  | 20 => .notDirectory
  | 21 => .isDirectory
  | 36 => .nameTooLong
  | number => .other s!"{text} (os error {number})"

/-- The fault in an error, whose code may be the negative of its number. -/
def faultOf (error : IO.Error) : FileFault :=
  match numbered? error with
  | some (code, text) => faultNumbered code.toInt32.toInt.natAbs text.capitalize
  | none => .other error.toString

/-- Does something with the file of a path that may be one. -/
def withFile {α : Type} (path : String) (action : IO α) : IO (Except FileFault α) := do
  if path.contains '\x00' then return .error .nulCharacter
  try
    return .ok (← action)
  catch error => return .error (faultOf error)

/-! ## Connections -/

/-- All that comes in until the connection ends or breaks. -/
partial def drain (connection : TCP.Socket.Client) (received : ByteArray) : Async ByteArray := do
  let chunk ←
    try
      connection.recv? 65536
    catch _ => pure none
  match chunk with
  | some bytes => drain connection (received ++ bytes)
  | none => return received

/-- Sends bytes to an address and yields all that comes in. -/
def ask (address : Std.Net.IPAddr) (port : UInt16) (bytes : ByteArray) : Async ByteArray := do
  let connection ← TCP.Socket.Client.mk
  match address with
  | .v4 addr => connection.connect (.v4 { addr, port })
  | .v6 addr => connection.connect (.v6 { addr, port })
  connection.send bytes
  drain connection .empty

/-- Asks a server at the first of its addresses that answers. -/
def askAny (port : UInt16) (bytes : ByteArray) : List Std.Net.IPAddr → Async ByteArray
  | [] => return .empty
  | address :: rest => do
    try
      ask address port bytes
    catch _ => askAny port bytes rest

/-- Lets a request go out. -/
def exchange (seconds : Nat) (outgoing : Outgoing) : IO Bytes := do
  if outgoing.url.scheme != "http" then return []
  let (host, port) := outgoing.hostAndPort
  let bytes := ByteArray.mk (outgoing.bytes CommandLine.agent).toArray
  let asked : Async ByteArray := do
    askAny (UInt16.ofNat port) bytes (← DNS.getAddrInfo host (toString port)).toList
  let late : Async ByteArray := do
    sleep (.ofNat (1000 * seconds))
    return .empty
  try
    return (← (Async.race asked late).block).toList
  catch _ => return []

/-- The machine at hand. -/
def machine : Machine IO where
  readFile path := withFile path do return (← IO.FS.readBinFile path).toList
  writeFile path bytes := withFile path (IO.FS.writeBinFile path (ByteArray.mk bytes.toArray))
  exchange := exchange

/-- The variables of the environment that count. -/
def environment : IO (List (String × String)) := do
  let read := fun name : String => return (← IO.getEnv name).toList.map fun value => (name, value)
  return (← ["TRAFFIC_CONFIG", "TRAFFIC_DATA_BASE_URL"].mapM read).flatten

end Program

end RoadTraffic

open RoadTraffic in
/-- Runs what the arguments ask for. -/
def main (arguments : List String) : IO UInt32 := do
  let (outcome, _) ← CommandLine.run Program.machine (← Program.environment) arguments
  IO.print outcome.output
  IO.eprint outcome.errors
  return UInt32.ofNat outcome.exitCode
