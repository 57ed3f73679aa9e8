import Signatory.Curve.Ecdsa
import Signatory.Ticket

/-! Everything that can go wrong, by cause, and the text of each cause. A cause that says all by its kind
has no text. -/

namespace Signatory
set_option autoImplicit false

inductive PublicKeyFault where
  | size (bytes : Nat)
  | unsupported (algorithm : Text)
  | offCurve

def PublicKeyFault.message : PublicKeyFault → Text
  | size n => .concat ["Public key must be 64 bytes, got ", .ofNat n]
  | unsupported algorithm => .concat ["Unsupported signature algorithm: ", algorithm]
  | offCurve => "Invalid EC key."

inductive ArgumentFault where
  | notObject (position : Nat) (kind : Text)
  | noType (position : Nat)
  | noValue (position : Nat) (type : Text)
  | badEncoding
  | badJson
  | notArray

def ArgumentFault.message : ArgumentFault → Text
  | notObject i kind => .concat ["argument ", .ofNat i, " must be an object, got ", kind]
  | noType i => .concat ["argument ", .ofNat i, " is missing a type"]
  | noValue i type => .concat ["argument ", .ofNat i, " of type ", type, " is missing a value"]
  | badEncoding => "invalid argument encoding: "
  | badJson => "arguments are not valid JSON: "
  | notArray => "arguments must be a JSON array"

inductive RejectionCode where
  | notFound
  | invalidArgument
  | alreadyExists
  deriving DecidableEq, Repr

def RejectionCode.name : RejectionCode → Text
  | notFound => "NOT_FOUND"
  | invalidArgument => "INVALID_ARGUMENT"
  | alreadyExists => "ALREADY_EXISTS"

/-- Why the ledger refuses a request. A runtime that crashed is told apart from a script that failed. -/
inductive Rejection where
  | noAccount (address : Bytes)
  | noBlockAt (height : Int)
  | noBlock (id : Bytes)
  | noCollection (id : Bytes)
  | noTransaction (id : Bytes)
  | noResult (ticket : Ticket)
  | alreadyStored (id : Bytes)
  | missingFields
  | gasLimit (given maximum : Int)
  | unknownReference (id : Bytes)
  | missingSignatures (missing : List Text)
  | unknownSigner (address : Bytes) (index : Int)
  | badSignature (address : Bytes) (index : Int)
  | noProposalKey (address : Bytes) (index : Int)
  | sequence (address : Bytes) (index given expected : Int)
  | execution (reason : Text)
  | script (reason : Text)
  | scriptCrash (reason : Text)
  /-- A reason that shows an item of an unexpected kind. -/
  | item (code : RejectionCode) (reason : Text)

namespace Rejection

def code : Rejection → RejectionCode
  | noAccount _ | noBlockAt _ | noBlock _ | noCollection _ | noTransaction _ | noResult _ => .notFound
  | alreadyStored _ => .alreadyExists
  | item code _ => code
  | _ => .invalidArgument

def message : Rejection → Text
  | noAccount address => .concat ["account with address ", Bytes.hex address, " does not exist"]
  | noBlockAt height => .concat ["block at height ", .ofInt height, " not found"]
  | noBlock id => .concat ["block with ID ", Bytes.hex id, " not found"]
  | noCollection id => .concat ["collection ", Bytes.hex id, " not found"]
  | noTransaction id => .concat ["transaction ", Bytes.hex id, " not found"]
  | noResult ticket => .concat ["transaction result ", ticket.hex, " not found"]
  | alreadyStored id => .concat ["transaction ", Bytes.hex id, " already exists"]
  | missingFields => "transaction is missing required fields"
  | gasLimit given maximum =>
    .concat ["gas limit ", .ofInt given, " exceeds maximum of ", .ofInt maximum]
  | unknownReference id => .concat ["reference block ", Bytes.hex id, " not found"]
  | missingSignatures missing => .concat ["missing signatures: ", .join ", " missing]
  | unknownSigner address index =>
    .concat ["signature from unknown or revoked key ", .ofInt index, " of account ", Bytes.hex address]
  | badSignature address index =>
    .concat ["invalid signature for account ", Bytes.hex address, " key ", .ofInt index]
  | noProposalKey address index =>
    .concat ["proposal key ", .ofInt index, " does not exist on account ", Bytes.hex address]
  | sequence address index given expected =>
    .concat ["invalid proposal key: address ", Bytes.hex address, ", index ", .ofInt index,
      ", sequence number ", .ofInt given, " (expected ", .ofInt expected, ")"]
  | execution reason => .concat ["transaction execution failed: ", reason]
  | script reason | scriptCrash reason => .concat ["script execution failed: ", reason]
  | item _ reason => reason

end Rejection

inductive FieldFault where
  | missing
  | notBytes
  | notText
  | notUtf8
  | notMember
  | notMap
  | notBool
  | badBool

def FieldFault.name : FieldFault → Text
  | missing => "missing"
  | notBytes => "bytes_type"
  | notText => "string_type"
  | notUtf8 => "string_unicode"
  | notMember => "enum"
  | notMap => "dict_type"
  | notBool => "bool_type"
  | badBool => "bool_parsing"

/-- A faulty field: where it stands in its record, and what is wrong with it. -/
structure FieldProblem where
  place : Text
  fault : FieldFault

def FieldProblem.message (p : FieldProblem) : Text := .concat [p.place, ": ", p.fault.name]

inductive Error where
  | addressText (given : Text)
  | addressTooLong (bytes : Nat)
  | addressSize (bytes : Nat)
  | privateKeyText
  | privateKeyRange (algorithm : Text)
  | unknownAlgorithm
  | unsupportedHash (algorithm : Text)
  | publicKey (fault : PublicKeyFault)
  | keyIndex (index : Int)
  | signerHash (signer : HashAlgorithm) (index : Int) (declared : HashAlgorithm)
  | signerPublicKey (algorithm : SignatureAlgorithm) (index : Int) (fault : PublicKeyFault)
  | noKeys (account : Text)
  | accountUnknown (name : Text)
  | networkUnknown (name : Text)
  | hostAddress (host : Text)
  | optionUnknown
  | certificate (path reason : Text)
  | accountNotFound (role name : Text)
  | roleConflict
  | rolesRequired
  | proposerRequired
  | payerRequired
  | signersUndetermined
  | authorizerCount (required : Int) (given : Nat)
  | gasLimit (given : Int)
  | argument (fault : ArgumentFault)
  | notPrepared
  | incompleteUnprepared
  | incomplete (missing : List Text)
  | keyNotOnAccount (role account : Text) (index : Int)
  | signerFailed (role account : Text) (index : Int) (reason : Text)
  | rejected (rejection : Rejection)
  | response (message code : Text)
  | connection (message : Text)
  | timeout (message : Text)
  | notSealed (ticket : Ticket) (given status : Text)
  | stillWaiting
  | cancelled (ticket : Ticket) (attempts : Nat)
  | snapshotNotFound (name : Text)
  | heightRange (first last : Int)
  | malformedMessage
  | notAMap (kind : Text)
  | badFrame
  | missingField (name : Text)
  | missingEntry
  | outOfRange
  | wrongKind
  | unreadable
  | notJson
  | tooDeep
  | notUnicode
  | overflow
  | overlongNumeral
  | noOperation
  | invalid (problems : List FieldProblem)
  | crash (reason : Text)

namespace Error

def signingMessage (role account : Text) (index : Int) (reason : Text) : Text :=
  .concat [role, " account [", account, "] key ", .ofInt index, ": ", reason]

def unpreparedMessage : Text := "transaction envelope has not been prepared with network state"

def message : Error → Text
  | addressText given => .concat ["Invalid address: ", given]
  | addressTooLong n => .concat ["Address must be at most 8 bytes, got ", .ofNat n]
  | addressSize n => .concat ["Address must be 8 bytes, got ", .ofNat n]
  | privateKeyText => "Private key must be a hex string"
  | privateKeyRange algorithm => .concat ["Private key out of range for ", algorithm]
  | unsupportedHash algorithm => .concat ["Unsupported hash algorithm: ", algorithm]
  | publicKey fault => fault.message
  | keyIndex index => .concat ["Key index must be non-negative, got ", .ofInt index]
  | signerHash signer index declared =>
    .concat ["Signer hashes with ", signer.name, ", but key ", .ofInt index, " declares ", declared.name]
  | signerPublicKey algorithm index fault =>
    .concat ["Signer public key does not match ", algorithm.name, " for key ", .ofInt index, ": ",
      fault.message]
  | noKeys account => .concat ["Account ", account, " has no keys"]
  | accountUnknown name =>
    .concat ["account named ", name, " does not exist in configuration"]
  | networkUnknown name =>
    .concat ["network with name ", name, " does not exist in configuration"]
  | hostAddress host =>
    .concat ["Invalid access node address '", host, "', expected host:port"]
  | certificate path reason =>
    .concat ["Failed to load custom CA certificate from ", path, ": ", reason]
  | accountNotFound role name =>
    .concat [role, " account: [", name, "] doesn't exist in configuration"]
  | roleConflict => "signer cannot be combined with payer/proposer/authorizer"
  | rolesRequired => "transaction roles are required for signing"
  | proposerRequired => "proposer account is required"
  | payerRequired => "payer account is required"
  | signersUndetermined => "proposer and payer are required to compute signers"
  | authorizerCount required given =>
    .concat ["script requires ", .ofInt required, " authorizers, got ", .ofNat given]
  | gasLimit given => .concat ["gas limit must be positive, got ", .ofInt given]
  | argument fault => fault.message
  | notPrepared | incompleteUnprepared => unpreparedMessage
  | incomplete missing =>
    .concat ["transaction envelope is missing signatures: ", .join ", " missing]
  | keyNotOnAccount role account index =>
    signingMessage role account index "key not found on network account"
  | signerFailed role account index reason => signingMessage role account index reason
  | rejected rejection => rejection.message
  | response message _ => message
  | connection message => message
  | timeout message => message
  | notSealed ticket given status =>
    .concat ["transaction ", ticket.hex, " not sealed after ", given, "s (last status ", status, ")"]
  | cancelled ticket attempts =>
    .concat ["waiting for transaction ", ticket.hex, " cancelled after ", .ofNat attempts, " polls"]
  | snapshotNotFound name => .concat ["could not find snapshot with name ", name]
  | heightRange first last =>
    .concat ["start height ", .ofInt first, " is after end height ", .ofInt last]
  | malformedMessage => "Malformed CBOR message: "
  | notAMap kind => .concat ["Expected a CBOR map, got ", kind]
  | missingField name => name
  | invalid problems => .join "; " ((problems.map FieldProblem.message).mergeSort Text.le)
  | crash reason => reason
  | unknownAlgorithm | optionUnknown | badFrame | missingEntry | outOfRange | wrongKind | unreadable | notJson
  | tooDeep | notUnicode | overflow | overlongNumeral | noOperation | stillWaiting => []

end Error

end Signatory
