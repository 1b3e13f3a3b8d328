import RespStore.Text.UpperCase

/-!
Levels of logging by name. A name is known whatever its case; an unknown one stands for `INFO`. One of
the names is not that of a severity, but of a layout.
-/

namespace RespStore

inductive LogLevel where
  | severity (n : Nat)
  | layout (text : String)

namespace LogLevel

def debug : LogLevel := severity 10

def info : LogLevel := severity 20

def named : List (String × LogLevel) :=
  [("CRITICAL", severity 50), ("FATAL", severity 50), ("ERROR", severity 40), ("WARNING", severity 30),
    ("WARN", severity 30), ("INFO", info), ("DEBUG", debug), ("NOTSET", severity 0),
    ("BASIC_FORMAT", layout "%(levelname)s:%(name)s:%(message)s")]

def ofText (t : Text) : LogLevel :=
  match t.toUpperAscii? with
  | none => info
  | some cs => match named.find? fun p => p.1.toList = cs with
    | some p => p.2
    | none => info

def effective (debugging : Bool) (t : Text) : LogLevel := if debugging then debug else ofText t

def recordLayout : String := "%(asctime)s - %(name)s - %(levelname)s - %(message)s"

end LogLevel

end RespStore
