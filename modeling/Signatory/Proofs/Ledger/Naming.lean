import Signatory.Ledger.Engine
import Signatory.Proofs.Cbor.PrefixFree

/-! What the names of blocks and collections digest. -/

namespace Signatory
set_option autoImplicit false

/-- The bytes that the identifier of a block digests. -/
def StoredBlock.preimage (b : StoredBlock) : Bytes :=
  Cbor.encode (.list [.bytes b.parent, .int b.height, .list (b.collections.map .bytes), .text b.timestamp.render])

theorem StoredBlock.height_eq_of_preimage {b c : StoredBlock} (h : b.preimage = c.preimage) : b.height = c.height := by
  have hplain (b : StoredBlock) : Cbor.Value.isPlain (.list [.bytes b.parent, .int b.height,
      .list (b.collections.map .bytes), .text b.timestamp.render]) = true := by
    simp [Cbor.Value.isPlain, Cbor.Value.arePlain, Cbor.arePlain_map_bytes]
  have hitem := Cbor.encode_inj (hplain b) (hplain c) h
  simp only [Cbor.Value.list.injEq, List.cons.injEq, Cbor.Value.int.injEq] at hitem
  exact hitem.2.1

namespace Engine

/-- The bytes that the identifier of a collection digests. -/
def collectionPreimage (id : Bytes) : Bytes := Cbor.encode (.list [.text "collection", .list [.bytes id]])

theorem collectionPreimage_inj {a b : Bytes} (h : collectionPreimage a = collectionPreimage b) : a = b := by
  have hitem := Cbor.encode_inj rfl rfl h
  simpa using hitem

end Engine

/-- Digested for a name of the ledger: for that of a block, or of the collection of a stored transaction. -/
def Ledger.Digests (l : Ledger) (p : Bytes) : Prop :=
  (∃ b ∈ l.blocks, p = b.preimage) ∨ ∃ id ∈ l.transactions.keys, p = Engine.collectionPreimage id

end Signatory
