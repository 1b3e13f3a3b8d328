import RespStore.Command.Dispatch
import RespStore.Wire.Encoding

/-!
What one read of a connection leads to: every request that the bytes complete is executed in turn,
until the bytes are used up, a request takes leave, or the stream is found at fault.
-/

namespace RespStore

def Request.isQuit (r : Request) : Bool := Command.ofText? r.name = some .quit

inductive Ending where
  | waiting
  | quit
  | malformed (f : Wire.ProtocolFault)
  | broken
deriving DecidableEq

structure Exchange where
  /-- How many requests have been counted, those of earlier reads included. -/
  requests : Nat
  replies : List Reply
  ending : Ending
  decoder : Wire.Decoder
  keyspace : Keyspace

namespace Exchange

/-- Bounds the requests that are still to be found. -/
def work (d : Wire.Decoder) : Nat := d.buffer.length + (if d.draft.isSome then 1 else 0)

theorem work_next {d e : Wire.Decoder} {r : Request} (h : d.next = (.ok (some r), e)) :
    work e < work d := by
  obtain ⟨limits, buffer, draft⟩ := d
  simp only [Wire.Decoder.next, Prod.mk.injEq] at h
  obtain ⟨hf, rfl⟩ := h
  cases draft with
  | none =>
    have := Wire.seek_length hf
    have hd : (Wire.seek limits buffer).draft = none := Wire.draft_seek hf
    simp only [work, Wire.scan, hd]
    simpa using this
  | some dr =>
    have hd : (Wire.fill limits dr.missing dr.args buffer).draft = none := Wire.draft_fill hf
    rcases @Wire.fill_length limits dr.missing dr.args buffer with hl | hl
    · simp only [work, Wire.scan, hd]
      simp
      omega
    · exact absurd hf (hl r)

/-- A request is counted before it is executed. -/
def run (now : Instant) (count : Nat) (done : List Reply) (d : Wire.Decoder) (s : Keyspace) : Exchange :=
  match _h : d.next with
  | (.error (.protocol f), d) => ⟨count, done.reverse, .malformed f, d, s⟩
  | (.error (.numeralTooLong _), d) => ⟨count, done.reverse, .broken, d, s⟩
  | (.ok none, d) => ⟨count, done.reverse, .waiting, d, s⟩
  | (.ok (some r), e) =>
    let count := count + 1
    let (reply, s) := execute now s r
    if r.isQuit then ⟨count, (reply :: done).reverse, .quit, e, s⟩ else run now count (reply :: done) e s
termination_by work d
decreasing_by exact work_next _h

theorem run_eq (now : Instant) (count : Nat) (done : List Reply) (d : Wire.Decoder) (s : Keyspace) :
    run now count done d s =
      match d.next with
      | (.error (.protocol f), d) => ⟨count, done.reverse, .malformed f, d, s⟩
      | (.error (.numeralTooLong _), d) => ⟨count, done.reverse, .broken, d, s⟩
      | (.ok none, d) => ⟨count, done.reverse, .waiting, d, s⟩
      | (.ok (some r), e) =>
        let (reply, s) := execute now s r
        if r.isQuit then ⟨count + 1, (reply :: done).reverse, .quit, e, s⟩
        else run now (count + 1) (reply :: done) e s := by
  rw [run]
  split <;> simp_all

def notice : Ending → Option Reply
  | .malformed f => some (.error f.error.line)
  | _ => none

def toBytes (x : Exchange) : Bytes := Reply.listToBytes (x.replies ++ (notice x.ending).toList)

end Exchange

end RespStore
