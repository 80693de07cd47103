import Mathlib.Tactic

/-!
# Skweltch — messages

The messages the parties exchange (`core/SinkMsg.hpp`, `core/KillMsg.hpp`, `msg/DataMsg.hpp`), at
the level of the tuples that `Msg` packs and unpacks: the msgpack bytes in between are left out,
and so is the clock value a `DataMsg` carries, which no receiver under `core`, `work` or `sink`
reads.
-/

namespace Skweltch

/-- A `std::string`, one `Char` for each byte. -/
abbrev Str := List Char

/-- `c_str()`, as what takes it for a C string reads it: up to the first NUL. -/
def cStr (s : Str) : Str := s.takeWhile (· ≠ '\x00')

/-- `tuple<int, int, vector<string>>`. -/
structure SinkMsg where
  code : Int
  id : Int
  data : List Str
deriving DecidableEq, Repr

namespace SinkMsg

def firstMsg (id : Int) : SinkMsg := { code := 1, id := id, data := [] }

def dataMsg (id : Int) (d : List Str) : SinkMsg := { code := 2, id := id, data := d }

def lastMsg (id : Int) : SinkMsg := { code := 3, id := id, data := [] }

end SinkMsg

/-- `DataMsg<DataType>`: what a vent sends to the workers. -/
structure DataMsg (α : Type) where
  id : Int
  payload : α
deriving DecidableEq, Repr

/-- What `recv` leaves in a message: nothing when it throws, else a frame that unpacks to a value
or does not. -/
inductive Received (μ : Type) where
  | failed
  | garbage
  | ok (m : μ)
deriving DecidableEq, Repr

namespace Received

/-- The value the message unpacks to. A message that `recv` left empty does not unpack. -/
def unpack {μ : Type} : Received μ → Option μ
  | .failed => none
  | .garbage => none
  | .ok m => some m

end Received

end Skweltch
