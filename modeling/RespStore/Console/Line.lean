import RespStore.Console.Words
import RespStore.Text.Blank
import RespStore.Text.LowerCase

/-!
What a typed line asks of the console. The console's own words are known whatever their case, and
everything else is a request.
-/

namespace RespStore

inductive Line where
  | blank
  | help
  | exit
  | reconnect
  | faulty (f : Words.Fault)
  | request (words : List Text)

def Line.ofWords : Except Words.Fault (List Text) → Line
  | .ok words => request words
  | .error f => faulty f

def Line.ofText (typed : Text) : Line :=
  let line := typed.trim
  let word := line.toLower
  if line.isEmpty then .blank
  else if word = .ofString "help" then .help
  else if word = .ofString "exit" then .exit
  else if word = .ofString "reconnect" then .reconnect
  else .ofWords (Words.ofLine line)

def Line.isQuit : List Text → Bool
  | [] => false
  | name :: _ => name.toLower = .ofString "quit"

end RespStore
