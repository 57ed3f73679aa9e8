import Signatory.Number
import Signatory.OrderedMap

/-! CBOR data items. A list that serves as a map key becomes a tuple; integers beyond 64 bits are items
like all others. Maps keep the order of their entries, and keys that are equal as numbers are one key. -/

namespace Signatory.Cbor
set_option autoImplicit false

inductive Value where
  | null
  | bool (b : Bool)
  | int (i : Int)
  | float (x : Binary64)
  | bytes (b : Bytes)
  | text (s : Text)
  | list (items : List Value)
  | tuple (items : List Value)
  | map (entries : List (Value × Value))
  | simple (n : Nat)
  | tagged (tag : Nat) (item : Value)

namespace Value

instance : Inhabited Value := ⟨null⟩

/-- The number an item stands for; a truth value counts as 0 or 1. -/
def number? : Value → Option Number
  | bool b => some (.int (if b then 1 else 0))
  | int i => some (.int i)
  | float x => some (.float x)
  | _ => none

def alikeScalar : Value → Value → Bool
  | null, null => true
  | bytes a, bytes b => a == b
  | text s, text t => s == t
  | simple m, simple n => m == n
  | v, w =>
    match v.number?, w.number? with
    | some a, some b => a == b
    | _, _ => false

mutual

/-- Equality up to the order of map entries and the kind of numbers. -/
def alike : Value → Value → Bool
  | list xs, list ys => alikeAll xs ys
  | tuple xs, tuple ys => alikeAll xs ys
  | map es, map fs => es.length == fs.length && alikeEntries es fs
  | tagged m v, tagged n w => m == n && alike v w
  | v, w => alikeScalar v w

def alikeAll : List Value → List Value → Bool
  | [], [] => true
  | v :: vs, w :: ws => alike v w && alikeAll vs ws
  | _, _ => false

def alikeEntries : List (Value × Value) → List (Value × Value) → Bool
  | [], _ => true
  | (k, v) :: es, fs => (fs.any fun f => alike k f.1 && alike v f.2) && alikeEntries es fs

end

instance : BEq Value := ⟨alike⟩

/-- Whether a tag makes one number or one name of a list or a map that it marks. -/
def isBinding (tag : Nat) : Bool := tag = 4 || tag = 5 || tag = 30 || tag = 261 || tag = 43000

mutual

/-- Whether an item may be part of a key: a list or a map may not, in a tuple neither. -/
def isKey : Value → Bool
  | list _ => false
  | map _ => false
  | tuple items => areKeys items
  | tagged tag item => isBinding tag || isKey item
  | _ => true

def areKeys : List Value → Bool
  | [] => true
  | v :: vs => isKey v && areKeys vs

end

mutual

def hasKeys : Value → Bool
  | list items => allHaveKeys items
  | tuple items => allHaveKeys items
  | map entries => entriesHaveKeys entries
  | tagged _ item => hasKeys item
  | _ => true

def allHaveKeys : List Value → Bool
  | [] => true
  | v :: vs => hasKeys v && allHaveKeys vs

def entriesHaveKeys : List (Value × Value) → Bool
  | [] => true
  | (k, v) :: es => isKey k && hasKeys k && hasKeys v && entriesHaveKeys es

end

mutual

def isUnicode : Value → Bool
  | text s => !s.any CodePoint.isSurrogate
  | list items => areUnicode items
  | tuple items => areUnicode items
  | map entries => areEntriesUnicode entries
  | tagged _ item => isUnicode item
  | _ => true

def areUnicode : List Value → Bool
  | [] => true
  | v :: vs => isUnicode v && areUnicode vs

def areEntriesUnicode : List (Value × Value) → Bool
  | [] => true
  | (k, v) :: es => isUnicode k && isUnicode v && areEntriesUnicode es

end

def ofEntries (entries : List (Value × Value)) : Value := map (Entries.collect entries)

def field? (name : Text) : Value → Option Value
  | map entries => Entries.find? (text name) entries
  | _ => none

end Value

end Signatory.Cbor
