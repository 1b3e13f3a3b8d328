import RespStore.Options.Programs
import RespStore.Server.Lifecycle

/-!
The server as a program. It serves one connection, from standard input to standard output.
-/

namespace RespStore.Program

def print (out : IO.FS.Stream) (t : Text) : IO Unit := do
  out.write ⟨t.toBytes.toArray⟩
  out.flush

def clock : IO Instant := return .ofDecimal false (← IO.monoMsNow) (-3)

def environment : IO (Text → Option Text) := do
  let mut found : Bindings Text Text := []
  for setting in ["HOST", "PORT", "CLEANUP_INTERVAL", "DEBUG", "LOG_LEVEL"] do
    if let some v ← IO.getEnv (Settings.variableName setting) then
      found := found.put (.ofString (Settings.variableName setting)) (.ofString v)
  return fun name => Bindings.find? name found

partial def serve (input output : IO.FS.Stream) (id : Nat) (due : Instant) (s : Server) : IO Unit := do
  let data ← input.read Server.readSize.toUSize
  let now ← clock
  let (due, s) :=
    if s.sweeping && due.le now then (now.add s.interval, s.sweep now) else (due, s)
  let (out, s) := s.receive now id data.toList
  output.write ⟨out.toArray⟩
  output.flush
  if s.isServing id then serve input output id due s

def run (s : Settings) (o : ServerOptions) : IO Unit := do
  let interval := o.interval.getD s.interval
  let server : Server := { host := o.host.getD s.host, port := o.port.getD s.port, interval }
  let network : Network := fun _ port => .ok port
  let (id, server) := (server.listen network).2.accept
  serve (← IO.getStdin) (← IO.getStdout) id ((← clock).add interval) server

end RespStore.Program

open RespStore in
def main (args : List String) : IO UInt32 := do
  match Settings.ofEnvironment (← Program.environment) with
  | .error f =>
    Program.print (← IO.getStderr) (f.message ++ .ofString "\n")
    return 1
  | .ok settings =>
    match ServerOptions.parse settings (args.map .ofString) with
    | .error .help => return 0
    | .error (.fault f) =>
      Program.print (← IO.getStderr) (Options.complaint ServerOptions.program f)
      return 2
    | .ok o =>
      Program.run settings o
      return 0
