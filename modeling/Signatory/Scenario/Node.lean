import Signatory.Gateway.Remote

/-! A node with prepared answers. Those of a method are used in order, the last of them again and again. -/

namespace Signatory.Scenario
set_option autoImplicit false

abbrev NodeAnswer := Except RpcFault Cbor.Value

abbrev NodeScript := OrderedMap Text (List NodeAnswer)

/-- How a method without answers fails. -/
def unknownMethod (method : Text) : RpcFault :=
  ⟨some "UNIMPLEMENTED", some (.concat ["unknown method ", method]), []⟩

def NodeScript.next (method : Text) (script : NodeScript) : NodeAnswer × NodeScript :=
  match script.find? method with
  | some [answer] => (answer, script)
  | some (answer :: rest) => (answer, script.insert method rest)
  | _ => (.error (unknownMethod method), script)

/-- The bytes of an answer; no map in it may have a key that is none. -/
def NodeAnswer.response : NodeAnswer → Except CallFailure Bytes
  | .error fault => .error (.rpc fault)
  | .ok message =>
    if message.hasKeys then (Wire.encodeMessage message).mapError .unanswered
    else .error (.unanswered .wrongKind)

/-- The node that answers from a script, whatever it is asked, behind a plain channel. -/
def scriptedNode : Node NodeScript where
  answer method _ script :=
    let (answer, rest) := NodeScript.next method script
    (answer.response, rest)
  unwritten := .unanswered
  unread := .unanswered

end Signatory.Scenario
