import RespStore.Number.Literal
import RespStore.Options.CommandLine
import RespStore.Options.Settings

/-!
The options of the server and of the console. Two dashes in place of a value are no value: the option
is then given, and empty.
-/

namespace RespStore

open CommandLine

namespace Options

def int? (t : Text) : Option Int := (Literal.int t).toOption

variable {σ : Type}

def help : Opt σ := ⟨some 'h', "help", .help⟩

def reading {α : Type} (kind : String) (read : Text → Option α) (long : String) (set : Option α → σ → σ) :
    Opt σ :=
  ⟨none, long, .value kind (fun t s => (read t).map fun a => set (some a) s) (set none)⟩

def text (long : String) (set : Option Text → σ → σ) : Opt σ := reading "str" some long set

def int (long : String) (set : Option Int → σ → σ) : Opt σ := reading "int" int? long set

def float (long : String) (set : Option Binary64 → σ → σ) : Opt σ := reading "float" Literal.float? long set

def shown {α : Type} (f : α → Text) : Option α → Text
  | some a => f a
  | none => .ofString "[]"

def complaint (program : String) (f : CommandLine.Fault) : Text :=
  Text.ofString program ++ Text.ofString ": error: " ++ f.message ++ Text.ofString "\n"

end Options

structure ServerOptions where
  host : Option Text
  port : Option Int
  interval : Option Binary64
  debug : Bool

namespace ServerOptions

def program : String := "embedded-redis"

def options : List (Opt ServerOptions) :=
  [ Options.help,
    Options.text "host" fun host o => { o with host },
    Options.int "port" fun port o => { o with port },
    Options.float "cleanup-interval" fun interval o => { o with interval },
    ⟨none, "debug", .flag fun o => { o with debug := true }⟩ ]

def parse (s : Settings) (args : List Text) : Except Stop ServerOptions :=
  CommandLine.parse options ⟨some s.host, some s.port, some s.interval, s.debug⟩ args

end ServerOptions

structure ConsoleOptions where
  host : Option Text := some (.ofString "localhost")
  port : Option Int := some 6379
  timeout : Option Binary64 := some (.ofDecimal false 5 0)

namespace ConsoleOptions

def program : String := "client.py"

def options : List (Opt ConsoleOptions) :=
  [ Options.help,
    Options.text "host" fun host o => { o with host },
    Options.int "port" fun port o => { o with port },
    Options.float "timeout" fun timeout o => { o with timeout } ]

def parse (args : List Text) : Except Stop ConsoleOptions := CommandLine.parse options {} args

def hostText (o : ConsoleOptions) : Text := Options.shown id o.host

def portText (o : ConsoleOptions) : Text := Options.shown Text.ofInt o.port

end ConsoleOptions

end RespStore
