import InterCore.Config.Message
import InterCore.Text.Cut
import InterCore.Variable.Store

/-!
# The configuration server

The firmware's side of the configuration messages. It answers every request with one response and
sends nothing of its own accord. The index is checked first, for every kind but `nop` and `count`;
a request that asks for an index outside the table is told so even if its kind is unknown.
-/

namespace InterCore.Config

namespace Server

/-- The variable that an index in a request stands for. -/
def index? (count : Nat) (index : Int32) : Option Nat :=
  if 0 ≤ index.toInt ∧ index.toInt < count then some index.toInt.toNat else none

/-- The response to a request, and the store after it. -/
def handle [VarStore S] (s : S) (req : Message) : Message × S :=
  let count := VarStore.count s
  let respond (kind : ResponseKind) (value : Int32) := Message.response req.seq kind req.index value
  match req.requestKind, index? count req.index with
  | .ok .nop, _ => (respond .ok 0, s)
  | .ok .count, _ => (respond .count (Int32.ofNat count), s)
  | _, none => (respond .badIndex 0, s)
  | .error _, some _ => (respond .badRequest 0, s)
  | .ok .write, some i =>
    let (_, s) := VarStore.write s i req.value
    (respond .ok 0, s)
  | .ok .read, some i =>
    let (value, s) := VarStore.sample s i
    (respond .value value, s)
  | .ok .min, some i => (respond .min (VarStore.min s i), s)
  | .ok .max, some i => (respond .max (VarStore.max s i), s)
  | .ok .name, some i =>
    let text := VarStore.name s i
    ((respond .name (VarStore.value s i)).setData (Text.toBytes text), s)
  | .ok .description, some i =>
    let text := VarStore.description s i
    ((respond .description (VarStore.value s i)).setData (Text.toBytes text), s)

/-- What is sent back for a message, and the store after it. A message that is too short for a
request is dropped. -/
def receive [VarStore S] (s : S) (bytes : List UInt8) : List (List UInt8) × S :=
  match Message.decode bytes with
  | .error _ => ([], s)
  | .ok req =>
    let (rsp, s) := handle s req
    ([rsp.encode], s)

end Server

end InterCore.Config
