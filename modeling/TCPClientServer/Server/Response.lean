import TCPClientServer.Basis.Stream

/-!
# `Response`

What a server returns: a transmission status and the data of the strategy.

* `TransmitionStatus` : the enumeration, with the integers it does not name;
* `Response` : the struct, over any type of data.
-/

namespace TCPClientServer.Server
open TCPClientServer.Basis

/-- `TransmitionStatus`. An archive or uninitialised memory can also hold an integer it does not name. -/
inductive TransmitionStatus where
  | ok
  | bad
  | unnamed (code : { c : Int32t // c.1 < 0 ∨ 1 < c.1 })
deriving DecidableEq

namespace TransmitionStatus

def code : TransmitionStatus → Int32t
  | ok => .literal 0
  | bad => .literal 1
  | unnamed c => c.1

def ofCode (c : Int32t) : TransmitionStatus :=
  if h : c.1 < 0 ∨ 1 < c.1 then unnamed ⟨c, h⟩ else if c.1 = 0 then ok else bad

theorem ofCode_code (s : TransmitionStatus) : ofCode s.code = s := by
  cases s with
  | ok => rfl
  | bad => rfl
  | unnamed c => simp [ofCode, code, c.2]

end TransmitionStatus

structure Response (Data : Type) where
  transmissionStatus : TransmitionStatus
  data : Data
deriving DecidableEq

end TCPClientServer.Server
