import InterCore.Bytes.Area
import InterCore.Bytes.LittleEndian
import InterCore.Error
import InterCore.Text.Integer

/-!
# Configuration messages

The firmware has a table of named 32-bit variables which the other core asks for and sets. A
request and its response share one form of 420 bytes: five 32-bit words (sequence number, kind,
variable index, value, length of the data) and 400 bytes of data. A response carries the sequence
number of its request.
-/

namespace InterCore.Config

/-- Name of the channel on which the messages travel. -/
def channelName : String := "cfg_mgmt"

/-- Number of bytes of the data area. -/
def dataSize : Nat := 400

/-- Size of the words before the data area. -/
def headerSize : Nat := 20

/-- Number of bytes of a message. -/
def messageSize : Nat := headerSize + dataSize

/-- What is asked for. -/
inductive RequestKind where
  | nop
  | count
  | write
  | read
  | min
  | max
  | name
  | description
  deriving DecidableEq, Repr

namespace RequestKind

/-- The word that is sent for a request kind. -/
def toWord : RequestKind → UInt32
  | nop => 0
  | count => 1
  | write => 2
  | read => 3
  | min => 4
  | max => 5
  | name => 6
  | description => 7

/-- The request kind of a word, if it stands for one. -/
def ofWord? : UInt32 → Option RequestKind
  | 0 => some nop
  | 1 => some count
  | 2 => some write
  | 3 => some read
  | 4 => some min
  | 5 => some max
  | 6 => some name
  | 7 => some description
  | _ => none

end RequestKind

/-- What is answered. -/
inductive ResponseKind where
  | ok
  | count
  | badIndex
  | value
  | min
  | max
  | name
  | description
  | badRequest
  deriving DecidableEq, Repr

namespace ResponseKind

/-- The word that is sent for a response kind. -/
def toWord : ResponseKind → UInt32
  | ok => 128
  | count => 129
  | badIndex => 130
  | value => 131
  | min => 132
  | max => 133
  | name => 134
  | description => 135
  | badRequest => 255

/-- The response kind of a word, if it stands for one. -/
def ofWord? : UInt32 → Option ResponseKind
  | 128 => some ok
  | 129 => some count
  | 130 => some badIndex
  | 131 => some value
  | 132 => some min
  | 133 => some max
  | 134 => some name
  | 135 => some description
  | 255 => some badRequest
  | _ => none

end ResponseKind

/-- A request or a response. The kind is kept as a word, since any word may come in. -/
structure Message where
  seq : UInt32
  kind : UInt32
  /-- Index of the variable, negative where none is meant. -/
  index : Int32
  value : Int32
  /-- Number of data bytes that count, which may be more than there are. -/
  dataLen : UInt32 := 0
  data : Area dataSize := Area.ofBytes dataSize []
  deriving DecidableEq, Repr

namespace Message

/-- A request, which has no data. -/
def request (seq : UInt32) (kind : RequestKind) (index value : Int32) : Message :=
  { seq, kind := kind.toWord, index, value }

/-- A response without data. -/
def response (seq : UInt32) (kind : ResponseKind) (index value : Int32) : Message :=
  { seq, kind := kind.toWord, index, value }

/-- The message with as many of the bytes as fit in its data area. -/
def setData (m : Message) (bytes : List UInt8) : Message :=
  { m with
    dataLen := UInt32.ofNat (min bytes.length dataSize)
    data := Area.ofBytes dataSize bytes }

/-- The data bytes that count. -/
def validData (m : Message) : List UInt8 :=
  m.data.toList.take m.dataLen.toNat

/-- The kind of a message that is taken for a request. -/
def requestKind (m : Message) : Answer RequestKind :=
  match RequestKind.ofWord? m.kind with
  | some kind => .ok kind
  | none => .error .protocol

/-- The kind of a message that is taken for a response. -/
def responseKind (m : Message) : Answer ResponseKind :=
  match ResponseKind.ofWord? m.kind with
  | some kind => .ok kind
  | none => .error .protocol

/-- The bytes of a message in the order of its fields. -/
def encode (m : Message) : List UInt8 :=
  LittleEndian.encode32 m.seq ++ LittleEndian.encode32 m.kind
    ++ LittleEndian.encode32 m.index.toUInt32 ++ LittleEndian.encode32 m.value.toUInt32
    ++ LittleEndian.encode32 m.dataLen ++ m.data.toList

/-- The message that bytes stand for. What follows the words is data, and what is missing of it is
zero. -/
def decode (bytes : List UInt8) : Answer Message :=
  if bytes.length < headerSize then
    .error .bufferTooSmall
  else
    .ok {
      seq := LittleEndian.decode32 bytes
      kind := LittleEndian.decode32 (bytes.drop 4)
      index := (LittleEndian.decode32 (bytes.drop 8)).toInt32
      value := (LittleEndian.decode32 (bytes.drop 12)).toInt32
      dataLen := LittleEndian.decode32 (bytes.drop 16)
      data := Area.ofBytes dataSize (bytes.drop headerSize) }

@[simp]
theorem length_encode (m : Message) : m.encode.length = messageSize := by
  simp only [encode, List.length_append, LittleEndian.length_encode32, Vector.length_toList]
  rfl

/-- The decimal form of a number in a description. -/
private def shown (n : Nat) : String :=
  String.ofList (Text.decimal n)

/-- A message on one line, with its fields by name and the data bytes that count in decimal. -/
def describe (m : Message) : String :=
  let bytes := ", ".intercalate (m.validData.map fun b => shown b.toNat)
  "ConfigMsg \x7b seq: " ++ shown m.seq.toNat ++ ", kind: " ++ shown m.kind.toNat
    ++ ", index: " ++ Text.render m.index ++ ", value: " ++ Text.render m.value
    ++ ", data_len: " ++ shown m.dataLen.toNat ++ ", data: [" ++ bytes ++ "] \x7d"

end Message

end InterCore.Config
