import RespStore.Text.LowerCase

/-!
The errors a client is told of: a code and a message, in one line.
-/

namespace RespStore

inductive ReplyError where
  | general (message : Text)
  | unknownCommand (name : Text)
  | wrongArity (name : Text)
  | malformedArgument (message : Text)
  | wrongType
  | protocol (detail : Text)
deriving DecidableEq

namespace ReplyError

def notAnInteger : ReplyError := .malformedArgument (.ofString "value is not an integer or out of range")

def invalidExpireTime : ReplyError := .malformedArgument (.ofString "invalid expire time in 'setex' command")

def code : ReplyError → Text
  | .wrongType => .ofString "WRONGTYPE"
  | _ => .ofString "ERR"

def message : ReplyError → Text
  | .general m => m
  | .unknownCommand name => .ofString "unknown command '" ++ name ++ .ofString "'"
  | .wrongArity name =>
    .ofString "wrong number of arguments for '" ++ name.toLower ++ .ofString "' command"
  | .malformedArgument m => m
  | .wrongType => .ofString "Operation against a key holding the wrong kind of value"
  | .protocol detail => .ofString "Protocol error: " ++ detail

def line (e : ReplyError) : Text :=
  if e.message.isEmpty then e.code else e.code ++ .ofString " " ++ e.message

end ReplyError

end RespStore
