import Signatory.Account.Address
import Signatory.Key.Signer
import Signatory.Text.Quoted

/-! Accounts of the configuration: a name, an address and signing keys, the first of which is the default
one. -/

namespace Signatory
set_option autoImplicit false

structure Account where
  name : Text
  address : Bytes
  keys : List AccountKey
  /-- Copies of one account, in the configuration and in roles resolved from it, share this number; a
  change to the account reaches all of them. -/
  ref : Nat := 0

namespace Account

def create (name : Text) (address : Bytes) (keys : List AccountKey) : Except Error Account :=
  if address.length = Address.size then .ok { name, address, keys }
  else .error (.addressSize address.length)

def defaultKey (a : Account) : Except Error AccountKey :=
  match a.keys with
  | key :: _ => .ok key
  | [] => .error (.noKeys a.name)

def display (a : Account) : Text :=
  .concat ["Account(name=", Text.Quoted.encode a.name, ", address=0x", Bytes.hex a.address, ")"]

end Account

structure Directory where
  accounts : List Account

namespace Directory

def findName? (d : Directory) (name : Text) : Option Account :=
  d.accounts.find? fun a => a.name = name

def findAddress? (d : Directory) (address : Bytes) : Option Account :=
  d.accounts.find? fun a => a.address = address

/-- The accounts with the first one of the same name replaced, or with the account at the end. -/
def store (a : Account) : List Account → List Account
  | [] => [a]
  | b :: rest => if b.name = a.name then a :: rest else b :: store a rest

def put (d : Directory) (a : Account) : Directory := ⟨store a d.accounts⟩

/-- The directory without the accounts of a name, of which there must be one. -/
def remove (d : Directory) (name : Text) : Except Error Directory :=
  if (d.findName? name).isSome then .ok ⟨d.accounts.filter fun a => a.name ≠ name⟩
  else .error (.accountUnknown name)

def update (d : Directory) (ref : Nat) (f : Account → Account) : Directory :=
  ⟨d.accounts.map fun a => if a.ref = ref then f a else a⟩

end Directory

end Signatory
