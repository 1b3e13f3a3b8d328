import RespStore.Text.Basic

/-!
The values a server answers with.
-/

namespace RespStore

inductive Reply where
  | status (line : Text)
  | error (line : Text)
  | integer (n : Int)
  | bulk (data : Bytes)
  | null
  | array (items : List Reply)
deriving Inhabited

namespace Reply

def ok : Reply := .status (.ofString "OK")

def ofText (t : Text) : Reply := .bulk t.toBytes

def ofBool (b : Bool) : Reply := .integer (if b then 1 else 0)

def ofBytes? : Option Bytes → Reply
  | some data => .bulk data
  | none => .null

def isError : Reply → Bool
  | .error _ => true
  | _ => false

end Reply

end RespStore
