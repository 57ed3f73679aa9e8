import Signatory.Binary64.Hexadecimal
import Signatory.Cbor.Basic

/-! What a submission is answered with, and its result asked for by. It is an identifier, unless a node answers with a
double: that has a hexadecimal text as well, and nothing else is asked of it before it is passed on. -/

namespace Signatory
set_option autoImplicit false
open Cbor (Value)

inductive Ticket where
  | id (bytes : Bytes)
  | double (x : Binary64)

instance : Coe Bytes Ticket := ⟨.id⟩

namespace Ticket

def hex : Ticket → Text
  | id b => Bytes.hex b
  | double x => x.renderHex

def item : Ticket → Value
  | id b => .bytes b
  | double x => .float x

def ofItem? : Value → Option Ticket
  | .bytes b => some (id b)
  | .float x => some (double x)
  | _ => none

end Ticket

end Signatory
