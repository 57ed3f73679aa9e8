import Signatory.Transaction.Loose
import Signatory.Wire.Record

/-! Transactions on the wire. A receiver checks only the arguments and the key indices, and keeps whatever item it
finds in the other fields. -/

namespace Signatory
set_option autoImplicit false
open Cbor Wire

namespace Transaction

def signaturesToWire (m : SignatureMap) : Value :=
  .list (m.entries.map fun e =>
    mapOf [("address", .bytes e.1.1), ("key_index", .int e.1.2), ("signature", .bytes e.2)])

/-- The transaction as a map; its arguments must be typed values. -/
def toWire (t : Transaction) : Except Error Value := do
  let arguments ← t.arguments.mapM Argument.encode
  return mapOf [("script", .bytes t.script), ("arguments", .list (arguments.map .bytes)),
    ("reference_block_id", ofOptional .bytes t.referenceBlock), ("gas_limit", ofOptional .int t.gasLimit),
    ("proposal_key", mapOf [("address", .bytes t.proposalKey.address),
      ("key_index", .int t.proposalKey.keyIndex),
      ("sequence_number", ofOptional .int t.proposalKey.sequenceNumber)]),
    ("payer", .bytes t.payer), ("authorizers", .list (t.authorizers.map .bytes)),
    ("payload_signatures", signaturesToWire t.payloadSignatures),
    ("envelope_signatures", signaturesToWire t.envelopeSignatures)]

end Transaction

namespace LooseTransaction

def signaturesToWire (signatures : LooseSignatures) : Value :=
  .list (signatures.map fun e =>
    mapOf [("address", e.1.1), ("key_index", .int e.1.2), ("signature", e.2)])

def toWire (t : LooseTransaction) : Except Error Value := do
  let arguments ← t.arguments.mapM Argument.encode
  return mapOf [("script", t.script), ("arguments", .list (arguments.map .bytes)),
    ("reference_block_id", t.referenceBlock), ("gas_limit", t.gasLimit),
    ("proposal_key", mapOf [("address", t.proposer), ("key_index", .int t.keyIndex),
      ("sequence_number", t.sequenceNumber)]),
    ("payer", t.payer), ("authorizers", .list t.authorizers),
    ("payload_signatures", signaturesToWire t.payloadSignatures),
    ("envelope_signatures", signaturesToWire t.envelopeSignatures)]

def argumentOfWire : Value → Except Error Json
  | .bytes b => Argument.decode b
  | _ => .error .noOperation

def signatureOfWire (v : Value) : Except Error ((Value × Int) × Value) := do
  let address ← required "address" v
  let index ← toInt (← required "key_index" v)
  let signature ← required "signature" v
  checkKey address
  return ((address, index), signature)

/-- A repeated address and index keep their first place and their last signature. -/
def signaturesOfWire (v : Value) : Except Error LooseSignatures := do
  return Entries.collect (← (← toItems v).mapM signatureOfWire)

def ofWire (v : Value) : Except Error LooseTransaction := do
  let key ← required "proposal_key" v
  let script ← required "script" v
  let arguments ← (← toItems (← optional "arguments" (.list []) v)).mapM argumentOfWire
  let payer ← required "payer" v
  let authorizers ← toItems (← optional "authorizers" (.list []) v)
  let proposer ← required "address" key
  let keyIndex ← toInt (← required "key_index" key)
  let sequenceNumber ← optional "sequence_number" .null key
  let gasLimit ← optional "gas_limit" .null v
  let referenceBlock ← optional "reference_block_id" .null v
  let payloadSignatures ← signaturesOfWire (← optional "payload_signatures" (.list []) v)
  let envelopeSignatures ← signaturesOfWire (← optional "envelope_signatures" (.list []) v)
  return {
    script, arguments, payer, authorizers, proposer, keyIndex, sequenceNumber, gasLimit, referenceBlock,
    payloadSignatures, envelopeSignatures }

end LooseTransaction

end Signatory
