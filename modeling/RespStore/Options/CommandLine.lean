import RespStore.Pieces
import RespStore.Text.DecimalDigit
import RespStore.Text.Quoted

/-!
Command lines made of options. A long option may be cut short as long as it stays one of a kind, and
its value follows an equals sign or is the next argument. Short options take no value, and several of
them may stand behind one dash. Nothing but options is expected, and what is left over is complained
of last.
-/

namespace RespStore.CommandLine

inductive Action (σ : Type) where
  | help
  | flag (set : σ → σ)
  /-- `set` gives `none` for a value that is no `kind`, and `clear` is for two dashes, which are none. -/
  | value (kind : String) (set : Text → σ → Option σ) (clear : σ → σ)

structure Opt (σ : Type) where
  short : Option Char := none
  long : String
  action : Action σ

inductive Fault where
  | ambiguous (given : Text) (candidates : List Text)
  | valueMissing (option : Text)
  | valueIgnored (option value : Text)
  | valueInvalid (option : Text) (kind : String) (value : Text)
  | unrecognized (args : List Text)
deriving DecidableEq

inductive Stop where
  | help
  | fault (f : Fault)
deriving DecidableEq

variable {σ : Type}

def dash : Glyph := .char '-'

def equals : Glyph := .char '='

def Opt.longName (o : Opt σ) : Text := dash :: dash :: Text.ofString o.long

def Opt.shortName? (o : Opt σ) : Option Text := o.short.map fun c => [dash, .char c]

def Opt.names (o : Opt σ) : List Text := o.shortName?.toList ++ [o.longName]

def joined (separator : Text) : List Text → Text
  | [] => []
  | [t] => t
  | t :: ts => t ++ separator ++ joined separator ts

def Opt.title (o : Opt σ) : Text := joined (.ofString "/") o.names

def Fault.message : Fault → Text
  | ambiguous given candidates =>
    Text.ofString "ambiguous option: " ++ given ++ Text.ofString " could match " ++
      joined (.ofString ", ") candidates
  | valueMissing o => Text.ofString "argument " ++ o ++ Text.ofString ": expected one argument"
  | valueIgnored o v =>
    Text.ofString "argument " ++ o ++ Text.ofString ": ignored explicit argument " ++
      Text.ofChars (Quoted.text v)
  | valueInvalid o kind v =>
    Text.ofString "argument " ++ o ++ Text.ofString ": invalid " ++ Text.ofString kind ++
      Text.ofString " value: " ++ Text.ofChars (Quoted.text v)
  | unrecognized args =>
    Text.ofString "unrecognized arguments: " ++ joined (.ofString " ") args

inductive Attached where
  | none
  | afterEquals (value : Text)
  | glued (value : Text)

inductive Mark (σ : Type) where
  | plain
  | separator
  | unknown
  | option (o : Opt σ) (attached : Attached)

def isDecimal : Glyph → Bool
  | .char c => (DecimalDigit.value? c).isSome
  | .stray _ => false

def chomp (t : Text) : Text := if t.getLast? = some (.char '\n') then t.dropLast else t

def looksNegative : Text → Bool
  | [] => false
  | g :: r =>
    g = dash &&
      match Pieces.split (· = .char '.') (chomp r) with
      | [ds] => !ds.isEmpty && ds.all isDecimal
      | [whole, fraction] => whole.all isDecimal && !fraction.isEmpty && fraction.all isDecimal
      | _ => false

def splitEquals (t : Text) : Text × Option Text :=
  match t.findIdx? (· = equals) with
  | some i => (t.take i, some (t.drop (i + 1)))
  | none => (t, none)

def attachedOf : Option Text → Attached
  | some v => .afterEquals v
  | none => .none

def isLong (name : Text) : Bool := name.take 2 = [dash, dash]

def attachedTo (name value : Text) : Attached :=
  if isLong name then .afterEquals value else .glued value

def named (opts : List (Opt σ)) (name : Text) : Option (Opt σ) := opts.find? (name ∈ ·.names)

def candidates (opts : List (Opt σ)) (t : Text) : List (Text × Opt σ × Attached) :=
  if isLong t then
    let (name, value) := splitEquals t
    (opts.filter fun o => name.isPrefixOf o.longName).map fun o => (o.longName, o, attachedOf value)
  else opts.filterMap fun o =>
    if o.shortName? = some (t.take 2) then some (t.take 2, o, .glued (t.drop 2)) else none

def fallback (t : Text) : Mark σ :=
  if looksNegative t || t.contains (.char ' ') then .plain else .unknown

def mark (opts : List (Opt σ)) (t : Text) : Except Fault (Mark σ) :=
  if t.head? ≠ some dash ∨ t.length = 1 then .ok .plain
  else match named opts t with
    | some o => .ok (.option o .none)
    | none => match splitEquals t, named opts (splitEquals t).1 with
      | (name, some v), some o => .ok (.option o (attachedTo name v))
      | _, _ => match candidates opts t with
        | [] => .ok (fallback t)
        | [(_, o, attached)] => .ok (.option o attached)
        | several => .error (.ambiguous t (several.map (·.1)))

def marks (opts : List (Opt σ)) : List Text → Except Fault (List (Text × Mark σ))
  | [] => .ok []
  | t :: ts =>
    if t = [dash, dash] then .ok ((t, .separator) :: ts.map fun u => (u, .plain))
    else match mark opts t with
      | .error f => .error f
      | .ok m => (marks opts ts).map ((t, m) :: ·)

def setValue (o : Opt σ) (kind : String) (set : Text → σ → Option σ) (clear : σ → σ) (v : Text) (s : σ) :
    Except Stop σ :=
  if v = [dash, dash] then .ok (clear s)
  else match set v s with
    | some s => .ok s
    | none => .error (.fault (.valueInvalid o.title kind v))

def cluster (opts : List (Opt σ)) (o : Opt σ) : Text → Except Fault (List (Opt σ))
  | [] => .error (.valueIgnored o.title [])
  | g :: r =>
    match named opts [dash, g] with
    | none => .error (.valueIgnored o.title (g :: r))
    | some p => if r.isEmpty then .ok [o, p] else (cluster opts p r).map (o :: ·)

def applyAll (os : List (Opt σ)) (s : σ) : Except Stop σ :=
  os.foldlM (fun s o => match o.action with
    | .help => .error .help
    | .flag set => .ok (set s)
    | .value _ _ _ => .error (.fault (.valueMissing o.title))) s

def consume (opts : List (Opt σ)) (s : σ) (extras : List Text) :
    List (Text × Mark σ) → Except Stop (σ × List Text)
  | [] => .ok (s, extras.reverse)
  | (t, .plain) :: r => consume opts s (t :: extras) r
  | (t, .separator) :: r => consume opts s (t :: extras) r
  | (t, .unknown) :: r => consume opts s (t :: extras) r
  | (_, .option o .none) :: r =>
    match o.action with
    | .help => .error .help
    | .flag set => consume opts (set s) extras r
    | .value kind set clear => match r with
      | (v, .plain) :: r => match setValue o kind set clear v s with
        | .ok s => consume opts s extras r
        | .error e => .error e
      | _ => .error (.fault (.valueMissing o.title))
  | (_, .option o (.afterEquals v)) :: r =>
    match o.action with
    | .value kind set clear => match setValue o kind set clear v s with
      | .ok s => consume opts s extras r
      | .error e => .error e
    | _ => .error (.fault (.valueIgnored o.title v))
  | (_, .option o (.glued v)) :: r =>
    match cluster opts o v with
    | .error f => .error (.fault f)
    | .ok os => match applyAll os s with
      | .ok s => consume opts s extras r
      | .error e => .error e

def parse (opts : List (Opt σ)) (start : σ) (args : List Text) : Except Stop σ :=
  match marks opts args with
  | .error f => .error (.fault f)
  | .ok ms => match consume opts start [] ms with
    | .error e => .error e
    | .ok (s, []) => .ok s
    | .ok (_, extras) => .error (.fault (.unrecognized extras))

end RespStore.CommandLine
