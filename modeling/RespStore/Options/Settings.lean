import RespStore.Number.Literal
import RespStore.Server.Basic
import RespStore.Text.LowerCase
import RespStore.Text.Quoted

/-!
The settings of a server, as the environment gives them. The port is read before the interval, and
what cannot be read is refused.
-/

namespace RespStore

structure Settings where
  host : Text := .ofString "127.0.0.1"
  port : Int := 6379
  interval : Binary64 := .ofDecimal false 60 0
  readSize : Nat := Server.readSize
  limits : Wire.Limits := {}
  debug : Bool := false
  logLevel : Text := .ofString "INFO"

namespace Settings

inductive Fault where
  | port (given : Text)
  | portTooLong (digits : Nat)
  | interval (given : Text)
deriving DecidableEq

def Fault.message : Fault → Text
  | port given =>
    Text.ofString "invalid literal for int() with base 10: " ++
      Text.ofChars ((Quoted.text given).take 200)
  | portTooLong digits => Numeral.tooLongMessage digits
  | interval given =>
    Text.ofString "could not convert string to float: " ++ Text.ofChars (Quoted.text given)

def portOf (t : Text) : Except Fault Int :=
  match Literal.int t with
  | .ok n => .ok n
  | .error .malformed => .error (.port t)
  | .error (.tooLong digits) => .error (.portTooLong digits)

def intervalOf (t : Text) : Except Fault Binary64 :=
  match Literal.float? t with
  | some x => .ok x
  | none => .error (.interval t)

def variableName (setting : String) : String := "EMBEDDED_REDIS_" ++ setting

def ofEnvironment (env : Text → Option Text) : Except Fault Settings := do
  let standard : Settings := {}
  let var (setting : String) : Option Text := env (.ofString (variableName setting))
  let port ← (var "PORT").elim (.ok standard.port) portOf
  let interval ← (var "CLEANUP_INTERVAL").elim (.ok standard.interval) intervalOf
  return {
    host := (var "HOST").getD standard.host
    port
    interval
    debug := (var "DEBUG").elim standard.debug (·.toLower = .ofString "true")
    logLevel := (var "LOG_LEVEL").getD standard.logLevel }

end Settings

end RespStore
