import TCPClientServer.Basis.Stream

/-!
# The data of the calculator

* `ClientData`, `ServerData` : what the client sends and what the server answers;
* `Operation` : the operation of a request, with its integer in an archive and its text in a print-out.
-/

namespace TCPClientServer.Calculator
open TCPClientServer.Basis

def paddingSize : Nat := 2000

/-- `std::array<char, padding_size>`. -/
abbrev Padding := { p : Bytes // p.length = paddingSize }

def Padding.replicate (b : Byte) : Padding := ⟨List.replicate paddingSize b, List.length_replicate⟩

/-- `client_data::operation_enum`. An archive can also give an integer it does not name. -/
inductive Operation where
  | nop
  | add
  | subtract
  | multiply
  | divide
  | unnamed (code : { c : Int32t // c.1 < 0 ∨ 4 < c.1 })
deriving DecidableEq

namespace Operation

def code : Operation → Int32t
  | nop => .literal 0
  | add => .literal 1
  | subtract => .literal 2
  | multiply => .literal 3
  | divide => .literal 4
  | unnamed c => c.1

def ofCode (c : Int32t) : Operation :=
  if h : c.1 < 0 ∨ 4 < c.1 then unnamed ⟨c, h⟩
  else if c.1 = 0 then nop
  else if c.1 = 1 then add
  else if c.1 = 2 then subtract
  else if c.1 = 3 then multiply
  else divide

theorem ofCode_code (op : Operation) : ofCode op.code = op := by
  cases op with
  | unnamed c => simp [ofCode, code, c.2]
  | _ => rfl

/-- The conversion to `std::string`. -/
def toText : Operation → Bytes
  | nop => "NOP".toList.map ch
  | add => [ch '+']
  | subtract => [ch '-']
  | multiply => [ch '*']
  | divide => [ch '/']
  | unnamed _ => "undefined".toList.map ch

/-- One of the four operations a server carries out. -/
def Valid (op : Operation) : Prop := op = add ∨ op = subtract ∨ op = multiply ∨ op = divide

instance (op : Operation) : Decidable op.Valid := inferInstanceAs (Decidable (_ ∨ _))

end Operation

structure ClientData where
  clientId : Bytes
  id : Int32t
  operand1 : Double
  operation : Operation
  operand2 : Double
  padding : Padding
deriving DecidableEq

/-- `server_data`. The timestamp counts microseconds. -/
structure ServerData where
  timestamp : Int
  id : Int32t
  result : Double
  padding : Padding
deriving DecidableEq

end TCPClientServer.Calculator
