import InterCore.Bytes.Area
import InterCore.Bytes.LittleEndian
import InterCore.Error
import InterCore.Text.Cut

/-!
# Announcements

The payload with which a channel is made known to the other core: its name in 32 bytes, its
address, and whether it comes or goes.
-/

namespace InterCore.Packet

/-- Number of bytes of the name field. -/
def nameSize : Nat := 32

/-- A channel name as it is sent, with zero bytes after it. -/
abbrev Name := Area nameSize

/-- The name field of a text, cut between two characters if it is too long. -/
def Name.ofText (text : String) : Name :=
  Area.ofBytes nameSize (Text.toBytes (Text.cut nameSize text))

/-- The text of a name, up to the first zero byte. -/
def Name.text (name : Name) : String :=
  Text.ofBytes (Text.beforeNul name.toList)

/-- Whether a channel comes or goes. -/
inductive Purpose where
  | create
  | destroy
  deriving DecidableEq, Repr

namespace Purpose

/-- The word that is sent for a purpose. -/
def toWord : Purpose → UInt32
  | create => 0
  | destroy => 1

/-- The purpose of a word. Every word but one means that the channel comes. -/
def ofWord (w : UInt32) : Purpose :=
  if w = 1 then destroy else create

end Purpose

/-- What is said of a channel. -/
structure Announcement where
  name : Name
  addr : UInt32
  purpose : Purpose
  deriving DecidableEq, Repr

namespace Announcement

/-- Number of bytes of an announcement: the name, the address and the purpose. -/
def size : Nat := nameSize + 8

/-- The announcement that a channel has come. -/
def create (name : String) (addr : UInt32) : Announcement :=
  ⟨Name.ofText name, addr, .create⟩

/-- The bytes of an announcement in the order of its fields. -/
def encode (a : Announcement) : List UInt8 :=
  a.name.toList ++ LittleEndian.encode32 a.addr ++ LittleEndian.encode32 a.purpose.toWord

/-- The announcement in the first forty bytes. -/
def decode (bytes : List UInt8) : Answer Announcement :=
  if bytes.length < size then
    .error .bufferTooSmall
  else
    .ok {
      name := Area.ofBytes nameSize bytes
      addr := LittleEndian.decode32 (bytes.drop nameSize)
      purpose := .ofWord (LittleEndian.decode32 (bytes.drop (nameSize + 4))) }

end Announcement

end InterCore.Packet
