import Signatory.Proofs.Gateway.Agreement
import Signatory.Proofs.Gateway.Delivery
import Signatory.Proofs.Gateway.Errors

/-! Scripts through either gateway. A gateway to a node writes the arguments and reads the value, so that all of them
must be typed; one to an engine in the program hands on what it is given, and what comes out. -/

namespace Signatory
set_option autoImplicit false
open Outcome Wire
open Argument (Typed)
open Cbor (Value)
open Cbor.Value

/-- The same outcome of a script: one typed value, up to the order of fields, or arguments that are no typed values, or
an error that a gateway has for it. -/
inductive SameOutcome : Except Error Json → Except Error Json → Prop where
  | value {v w : Json} : Typed v → Typed w → v.canonical = w.canonical → SameOutcome (.ok v) (.ok w)
  | untyped {fault fault' : ArgumentFault} : SameOutcome (.error (.argument fault)) (.error (.argument fault'))
  | failed {e e' : Error} : e.isGateway = true → e'.isGateway = true → SameOutcome (.error e) (.error e')

def scriptRequest (script : Bytes) (arguments : List Bytes) : List (Text × Value) :=
  [("script", .bytes script), ("arguments", .list (arguments.map .bytes))]

def scriptAnswer (value : Bytes) : List (Text × Value) := [("value", .bytes value)]

theorem named_scriptRequest (script : Bytes) (arguments : List Bytes) :
    Named ((scriptRequest script arguments).map Prod.fst) :=
  (⟨by decide, by decide⟩ : Named ["script", "arguments"])

theorem fits_scriptRequest (script : Bytes) (arguments : List Bytes) :
    Fits 2 (mapOf (scriptRequest script arguments)) := by
  refine fits_mapOf (named_scriptRequest script arguments) ?_
  simp only [scriptRequest, List.forall_mem_cons]
  exact ⟨fits_bytes _, fits_bytesList arguments 0, nofun⟩

theorem named_scriptAnswer (value : Bytes) : Named ((scriptAnswer value).map Prod.fst) :=
  (⟨by decide, by decide⟩ : Named ["value"])

theorem fits_scriptAnswer (value : Bytes) : Fits 1 (mapOf (scriptAnswer value)) :=
  fits_mapOf (named_scriptAnswer value) (List.forall_mem_singleton.mpr (fits_bytes value))

variable {μ ν : Type}

namespace Engine

variable (E : Engine μ)

/-- A value as it is answered. -/
def answerValue (value : Json) : Except Error Bytes := do encodeMessage (mapOf (scriptAnswer (← Argument.encode value)))

def scriptOf : Value → Except Error Bytes
  | .bytes b => .ok b
  | _ => .error .wrongKind

/-- What a node does with the request of a script: it reads script and arguments, runs the script on its ledger, and
writes the value. -/
def respond (s : State μ) (request : Bytes) : Except Error Bytes := do
  let message ← decodeMessage request
  let script ← scriptOf (← required "script" message)
  let arguments ← (← toItems (← required "arguments" message)).mapM LooseTransaction.argumentOfWire
  let value ← (E.evaluate s script arguments).1
  answerValue value

/-- What a script is sent with, and what it gives, is well-formed and has room in frames. -/
structure Conveys (s : State μ) (script : Bytes) (arguments : List Json) : Prop where
  wellFormed : ∀ a ∈ arguments, a.WellFormed
  request : ∀ encoded data, arguments.mapM Argument.encode = .ok encoded →
    encodeMessage (mapOf (scriptRequest script encoded)) = .ok data → data.length < Frame.sizeLimit
  value : ∀ v, (E.evaluate s script (arguments.map Json.canonical)).1 = .ok v → v.WellFormed
  answer : ∀ v data, (E.evaluate s script (arguments.map Json.canonical)).1 = .ok v → answerValue v = .ok data →
    data.length < Frame.sizeLimit

/-- Runs of a script with the arguments as they are, and with the same in canonical form, give one typed value; or the
first fails and the second gives no typed value. -/
def Indifferent (s : State μ) (script : Bytes) (arguments : List Json) : Prop :=
  (∃ v w, (E.evaluate s script arguments).1 = .ok v ∧ (E.evaluate s script (arguments.map Json.canonical)).1 = .ok w ∧
    Typed v ∧ Typed w ∧ v.canonical = w.canonical) ∨
  (∃ e, (E.evaluate s script arguments).1 = .error e) ∧
    ∀ w, (E.evaluate s script (arguments.map Json.canonical)).1 = .ok w → ¬Typed w

variable {E}

theorem isGateway_of_evaluate {s : State μ} {script : Bytes} {arguments : List Json} {e : Error}
    (h : (E.evaluate s script arguments).1 = .error e) : e.isGateway = true := by
  unfold evaluate at h
  rcases hevaluate : E.runtime.evaluate script arguments s.ledger s.memory with ⟨value | reason | reason, left, memory⟩
  · simp only [hevaluate] at h
    cases h
  · simp only [hevaluate] at h
    obtain rfl := Except.error.inj h
    rfl
  · simp only [hevaluate] at h
    obtain rfl := Except.error.inj h
    rfl

/-- To a runtime that makes no difference between the two, all that matters is a typed value. -/
theorem indifferent_iff_of_eq {s : State μ} {script : Bytes} {arguments : List Json}
    (h : (E.evaluate s script (arguments.map Json.canonical)).1 = (E.evaluate s script arguments).1) :
    E.Indifferent s script arguments ↔ ∀ v, (E.evaluate s script arguments).1 = .ok v → Typed v := by
  unfold Indifferent
  rw [h]
  cases (E.evaluate s script arguments).1 with
  | error e => simp
  | ok v =>
    simp only [Except.ok.injEq, forall_eq', reduceCtorEq, exists_false, false_and, or_false]
    constructor
    · rintro ⟨_, _, rfl, rfl, hv, _⟩
      exact hv
    · intro hv
      exact ⟨v, v, rfl, rfl, hv, hv, rfl⟩

theorem exists_answerValue {v : Json} (h : Typed v) (hwritable : v.isWritable = true) :
    ∃ data, answerValue v = .ok data := by
  unfold answerValue
  rw [h.encode_eq hwritable]
  exact ⟨_, encodeMessage_of_portable (fits_scriptAnswer _).portable⟩

theorem exists_error_of_not_typed {v : Json} (h : ¬Typed v) : ∃ e, answerValue v = .error e := by
  rcases Argument.encode_cases v with ⟨hv, _⟩ | ⟨_, fault, hfault⟩ | ⟨⟨hv, _⟩, _⟩
  · exact absurd hv h
  · exact ⟨.argument fault, by rw [answerValue, hfault]; rfl⟩
  · exact absurd hv h

/-- The script is run with the arguments in canonical form. -/
theorem respond_of_request {s : State μ} {script : Bytes} {arguments : List Json} (hall : ∀ a ∈ arguments, a.Portable)
    {encoded : List Bytes} (hencoded : arguments.mapM Argument.encode = .ok encoded) {data : Bytes}
    (hdata : encodeMessage (mapOf (scriptRequest script encoded)) = .ok data) (hsize : data.length < Frame.sizeLimit) :
    E.respond s data = (E.evaluate s script (arguments.map Json.canonical)).1 >>= answerValue := by
  have hnames := named_scriptRequest script encoded
  have hscript := required_mapOf hnames "script" (.bytes script) (by simp [scriptRequest])
  have harguments := required_mapOf hnames "arguments" (.list (encoded.map .bytes)) (by simp [scriptRequest])
  have hread : decodeMessage data = .ok (mapOf (scriptRequest script encoded)).canonical :=
    decodeMessage_encodeMessage ((fits_scriptRequest script encoded).mono (by decide)) hdata hsize
  rw [canonical_bytesList] at harguments
  unfold respond
  rw [hread]
  simp only [bind, Except.bind, hscript, harguments, canonical, scriptOf, toItems,
    Transaction.argumentsOfWire hall hencoded]

end Engine

/-- A node with an engine runs scripts on the ledger of its engine; it answers with a fault where it cannot. -/
structure Node.RunsScripts (N : Node ν) (E : Engine μ) (engine : ν → Engine.State μ) : Prop where
  answers : ∀ {n request response}, E.respond (engine n) request = .ok response →
    (N.answer "ExecuteScriptAtLatestBlock" request n).1 = .ok response
  refuses : ∀ {n request e}, E.respond (engine n) request = .error e →
    ∃ fault, (N.answer "ExecuteScriptAtLatestBlock" request n).1 = .error (.rpc fault)

namespace Remote

variable {R : Remote ν}

theorem call_fst {method : Text} {request : Value} {data : Bytes} (h : encodeMessage request = .ok data)
    (d : Client (State ν)) :
    (R.call method request d).1 = R.reading method (R.node.answer method data d.backend.node).1 := by
  unfold call Client.onBackend
  rw [h]

theorem script_of_untyped {arguments : List Json} (hwritable : ∀ a ∈ arguments, a.isWritable = true)
    (h : ¬∀ a ∈ arguments, Typed a) (script : Bytes) (d : Client (State ν)) :
    ∃ fault, (R.gateway.script script arguments d).1 = .error (.argument fault) := by
  cases hencoded : arguments.mapM Argument.encode with
  | error e =>
    obtain ⟨a, hmem, ha⟩ := exists_of_mapM_eq_error hencoded
    obtain ⟨fault, rfl⟩ := Argument.fault_of_encode_eq_error (hwritable a hmem) ha
    have hscript : R.script script arguments d = (.error (.argument fault), d) :=
      Action.bind_of_error (congrArg (fun r => (r, d)) hencoded)
    exact ⟨fault, congrArg Prod.fst hscript⟩
  | ok encoded =>
    refine absurd (fun a ha => ?_) h
    obtain ⟨b, hb⟩ := exists_of_mapM_eq_ok hencoded a ha
    exact (Argument.encode_eq_ok.mp hb).1

theorem script_of_encoded {arguments : List Json} {encoded : List Bytes}
    (h : arguments.mapM Argument.encode = .ok encoded) (script : Bytes) {data : Bytes}
    (hdata : encodeMessage (mapOf (scriptRequest script encoded)) = .ok data) (d : Client (State ν)) :
    (R.gateway.script script arguments d).1 =
      (R.reading "ExecuteScriptAtLatestBlock" (R.node.answer "ExecuteScriptAtLatestBlock" data d.backend.node).1 >>=
        required "value") >>= LooseTransaction.argumentOfWire := by
  have hfetch : R.gateway.script script arguments d = R.fetch "ExecuteScriptAtLatestBlock"
      (mapOf (scriptRequest script encoded)) "value" LooseTransaction.argumentOfWire d := Action.lift_bind_of_ok h
  rw [hfetch, fetch_eq, R.call_fst hdata]
  rw [bind_assoc]

/-- The value of an answer is read in canonical form. -/
theorem read_answerValue {v : Json} (hv : v.Portable) {data : Bytes} (hdata : Engine.answerValue v = .ok data)
    (hsize : data.length < Frame.sizeLimit) (method : Text) :
    (R.reading method (.ok data) >>= required "value") >>= LooseTransaction.argumentOfWire = .ok v.canonical := by
  obtain ⟨b, hb, hdata⟩ := bind_eq_ok.mp hdata
  have hread : decodeMessage data = .ok (mapOf (scriptAnswer b)).canonical :=
    decodeMessage_encodeMessage ((fits_scriptAnswer b).mono (by decide)) hdata hsize
  have hvalue := required_mapOf (named_scriptAnswer b) "value" (.bytes b) List.mem_cons_self
  have hfield : (R.reading method (.ok data) >>= required "value") = .ok (.bytes b) := by
    rw [R.reading_of_ok hread]
    exact hvalue
  rw [hfield]
  exact Argument.decode_of_encode hv hb

/-- The canonical form of a typed value comes back, and an error of the gateway where there is no typed value. -/
theorem script_cases {E : Engine μ} {engine : ν → Engine.State μ} (hnode : R.node.RunsScripts E engine)
    {d : Client (State ν)} {script : Bytes} {arguments : List Json}
    (h : E.Conveys (engine d.backend.node) script arguments) (htyped : ∀ a ∈ arguments, Typed a) :
    let sent := (E.evaluate (engine d.backend.node) script (arguments.map Json.canonical)).1
    (∃ w, sent = .ok w ∧ Typed w ∧ (R.gateway.script script arguments d).1 = .ok w.canonical) ∨
      (∀ w, sent = .ok w → ¬Typed w) ∧ ∃ e, (R.gateway.script script arguments d).1 = .error e ∧ e.isGateway = true := by
  intro sent
  obtain ⟨encoded, hencoded⟩ := exists_mapM_eq_ok fun a ha =>
    ⟨_, (htyped a ha).encode_eq (h.wellFormed a ha).portable.isWritable⟩
  obtain ⟨data, hdata⟩ : ∃ data, encodeMessage (mapOf (scriptRequest script encoded)) = .ok data :=
    ⟨_, encodeMessage_of_portable (fits_scriptRequest script encoded).portable⟩
  have hrespond := Engine.respond_of_request (E := E) (s := engine d.backend.node)
    (fun a ha => (h.wellFormed a ha).portable) hencoded hdata (h.request _ _ hencoded hdata)
  have hscript := script_of_encoded (R := R) hencoded script hdata d
  have hrefused {e : Error} (he : E.respond (engine d.backend.node) data = .error e) :
      ∃ e, (R.gateway.script script arguments d).1 = .error e ∧ e.isGateway = true := by
    obtain ⟨fault, hfault⟩ := hnode.refuses he
    rw [hscript, hfault]
    exact ⟨_, rfl, fault.isGateway_toError _⟩
  cases hsent : sent with
  | error e =>
    exact .inr ⟨nofun, hrefused (hrespond.trans (congrArg (· >>= Engine.answerValue) hsent))⟩
  | ok w =>
    have hanswer : E.respond (engine d.backend.node) data = Engine.answerValue w :=
      hrespond.trans (congrArg (· >>= Engine.answerValue) hsent)
    by_cases hw : Typed w
    · obtain ⟨response, hvalue⟩ := Engine.exists_answerValue hw (h.value w hsent).portable.isWritable
      refine .inl ⟨w, rfl, hw, ?_⟩
      rw [hscript, hnode.answers (hanswer.trans hvalue)]
      exact read_answerValue (h.value w hsent).portable hvalue (h.answer w response hsent hvalue) _
    · obtain ⟨e, hvalue⟩ := Engine.exists_error_of_not_typed hw
      exact .inr ⟨fun _ hsame => Except.ok.inj hsame ▸ hw, hrefused (hanswer.trans hvalue)⟩

end Remote

namespace Engine

variable {E : Engine μ} {s : State μ} {script : Bytes} {arguments : List Json}

/-- Arguments that are no typed values stop a request; the engine does not look at them. -/
theorem not_sameOutcome_untyped (fault : ArgumentFault) :
    ¬SameOutcome (E.evaluate s script arguments).1 (.error (.argument fault)) := by
  intro h
  generalize hgiven : (E.evaluate s script arguments).1 = given at h
  cases h with
  | untyped => cases isGateway_of_evaluate hgiven
  | failed _ he => cases he

theorem sameOutcome_value_iff {w : Json}
    (hsent : (E.evaluate s script (arguments.map Json.canonical)).1 = .ok w) (hw : Typed w) (hportable : w.Portable) :
    SameOutcome (E.evaluate s script arguments).1 (.ok w.canonical) ↔ E.Indifferent s script arguments := by
  constructor
  · intro h
    generalize hgiven : (E.evaluate s script arguments).1 = given at h
    cases h with
    | @value v _ hv _ hcanonical =>
      exact .inl ⟨v, w, hgiven, hsent, hv, hw, hcanonical.trans w.canonical_canonical⟩
  · rintro (⟨v, w', hgiven, hw', hv, _, hcanonical⟩ | ⟨_, hnone⟩)
    · obtain rfl := Except.ok.inj (hw'.symm.trans hsent)
      rw [hgiven]
      exact .value hv ((Argument.typed_canonical hportable).mpr hw) (hcanonical.trans (Json.canonical_canonical _).symm)
    · exact absurd hw (hnone w hsent)

theorem sameOutcome_error_iff (hnone : ∀ w, (E.evaluate s script (arguments.map Json.canonical)).1 = .ok w → ¬Typed w)
    {e : Error} (he : e.isGateway = true) :
    SameOutcome (E.evaluate s script arguments).1 (.error e) ↔ E.Indifferent s script arguments := by
  constructor
  · intro h
    generalize hgiven : (E.evaluate s script arguments).1 = given at h
    cases h with
    | untyped => cases he
    | failed => exact .inr ⟨⟨_, hgiven⟩, hnone⟩
  · rintro (⟨_, w, _, hw, _, htyped, _⟩ | ⟨⟨e', hgiven⟩, _⟩)
    · exact absurd htyped (hnone w hw)
    · rw [hgiven]
      exact .failed (isGateway_of_evaluate hgiven) he

end Engine

/-- A script has the same outcome through either gateway exactly if its arguments are typed and the runtime makes no
difference between them and their canonical form, where the value must be typed too. -/
theorem scripts_agree_iff {G : Embedded μ} {R : Remote ν} {engine : ν → Engine.State μ}
    (hnode : R.node.RunsScripts G.engine engine) {c : Client (Embedded.State μ)} {d : Client (Remote.State ν)}
    (hsame : engine d.backend.node = c.backend.engine) {script : Bytes} {arguments : List Json}
    (h : G.engine.Conveys c.backend.engine script arguments) :
    (SameOutcome (G.gateway.script script arguments c).1 (R.gateway.script script arguments d).1 ↔
      (∀ a ∈ arguments, Typed a) ∧ G.engine.Indifferent c.backend.engine script arguments) ∧
    ((G.engine.evaluate c.backend.engine script (arguments.map Json.canonical)).1 =
        (G.engine.evaluate c.backend.engine script arguments).1 →
      (SameOutcome (G.gateway.script script arguments c).1 (R.gateway.script script arguments d).1 ↔
        (∀ a ∈ arguments, Typed a) ∧ ∀ v, (G.engine.evaluate c.backend.engine script arguments).1 = .ok v → Typed v)) := by
  have hgiven : (G.gateway.script script arguments c).1 = (G.engine.evaluate c.backend.engine script arguments).1 :=
    (Embedded.loggingCrash_backend "script" (Embedded.change fun s => G.engine.evaluate s script arguments) c).1
  have hmain : SameOutcome (G.gateway.script script arguments c).1 (R.gateway.script script arguments d).1 ↔
      (∀ a ∈ arguments, Typed a) ∧ G.engine.Indifferent c.backend.engine script arguments := by
    rw [hgiven]
    by_cases htyped : ∀ a ∈ arguments, Typed a
    · rw [and_iff_right htyped]
      rw [← hsame] at h ⊢
      rcases Remote.script_cases hnode h htyped with ⟨w, hsent, hw, hremote⟩ | ⟨hnone, e, hremote, he⟩
      · rw [hremote]
        exact Engine.sameOutcome_value_iff hsent hw (h.value w hsent).portable
      · rw [hremote]
        exact Engine.sameOutcome_error_iff hnone he
    · obtain ⟨fault, hremote⟩ := Remote.script_of_untyped (fun a ha => (h.wellFormed a ha).portable.isWritable) htyped
        script d
      rw [hremote]
      exact iff_of_false (Engine.not_sameOutcome_untyped fault) fun hboth => htyped hboth.1
  refine ⟨hmain, fun hblind => ?_⟩
  rw [hmain, Engine.indifferent_iff_of_eq hblind]

-- A runtime that gives one value whatever it is asked, in the program and at a node.
def answering (value : Json) : Runtime Unit where
  execute _ l m := (.done [], l.accounts, m)
  evaluate _ _ l m := (.done value, l, m)

def scriptNode (E : Engine μ) : Node (Engine.State μ) where
  answer _ request s := ((E.respond s request).mapError fun e => .rpc ⟨some "INVALID_ARGUMENT", none, e.message⟩, s)
  unwritten := .unanswered
  unread := .unanswered

def scriptRemote (E : Engine μ) : Remote (Engine.State μ) where
  node := scriptNode E
  host := "localhost:1"
  secure := false
  apiKey := none
  timeout := .int 1
  pollInterval := .int 1

theorem scriptNode_runsScripts (E : Engine μ) : (scriptNode E).RunsScripts E id where
  answers {n request response} h := by
    have h : E.respond n request = .ok response := h
    simp only [scriptNode, h]
    rfl
  refuses {n request e} h := by
    have h : E.respond n request = .error e := h
    simp only [scriptNode, h]
    exact ⟨_, rfl⟩

def tenthGateway : Embedded Unit := Embedded.trusting (answering tenthPayload)

def tenthClient : Client (Embedded.State Unit) := .start (Embedded.trustingStart (answering tenthPayload) ())

def tenthRemoteClient : Client (Remote.State (Engine.State Unit)) := .start ⟨tenthClient.backend.engine, []⟩

theorem length_tenthAnswer :
    (Cbor.encode (mapOf (scriptAnswer (Text.Utf8.encode tenthPayload.render)))).length + 6 < Frame.sizeLimit := by
  have hpayload := length_tenthPayload
  generalize Text.Utf8.encode tenthPayload.render = b at hpayload ⊢
  simp only [mapOf, scriptAnswer, List.map_cons, List.map_nil, Cbor.length_encode_map, List.flatMap_cons, List.flatMap_nil,
    List.length_append, List.length_cons, List.length_nil, hpayload]
  decide +kernel

theorem length_tenthRequest :
    (Cbor.encode (mapOf (scriptRequest [] [Text.Utf8.encode tenthPayload.render]))).length + 6 < Frame.sizeLimit := by
  have hpayload := length_tenthPayload
  generalize Text.Utf8.encode tenthPayload.render = b at hpayload ⊢
  simp only [mapOf, scriptRequest, List.map_cons, List.map_nil, Cbor.length_encode_map, Cbor.encode_list,
    List.flatMap_cons, List.flatMap_nil, List.length_append, List.length_cons, List.length_nil, hpayload]
  decide +kernel

theorem conveys_tenth {arguments : List Json} (hall : ∀ a ∈ arguments, a.WellFormed)
    (hrequest : ∀ encoded, arguments.mapM Argument.encode = .ok encoded →
      (Cbor.encode (mapOf (scriptRequest [] encoded))).length + 6 < Frame.sizeLimit) :
    tenthGateway.engine.Conveys tenthClient.backend.engine [] arguments where
  wellFormed := hall
  request encoded _ hencoded hdata := length_encodeMessage_lt hdata (hrequest encoded hencoded)
  value v hv := by
    obtain rfl := Except.ok.inj hv
    exact presentable_tenthEvent.wellFormed
  answer v data hv hdata := by
    obtain rfl := Except.ok.inj hv
    have hdata : encodeMessage (mapOf (scriptAnswer (Text.Utf8.encode tenthPayload.render))) = .ok data := hdata
    exact length_encodeMessage_lt hdata length_tenthAnswer

theorem scripts_agree_iff_tenth :
    (∀ a ∈ [tenthPayload], Typed a) ∧
    SameOutcome (tenthGateway.gateway.script [] [tenthPayload] tenthClient).1
      ((scriptRemote tenthGateway.engine).gateway.script [] [tenthPayload] tenthRemoteClient).1 := by
  have htyped : ∀ a ∈ [tenthPayload], Typed a := List.forall_mem_singleton.mpr rfl
  have hconveys : tenthGateway.engine.Conveys tenthClient.backend.engine [] [tenthPayload] := by
    refine conveys_tenth (List.forall_mem_singleton.mpr presentable_tenthEvent.wellFormed) fun encoded hencoded => ?_
    obtain rfl := Except.ok.inj hencoded
    exact length_tenthRequest
  obtain ⟨_, hblind⟩ := scripts_agree_iff (R := scriptRemote tenthGateway.engine) (d := tenthRemoteClient)
    (scriptNode_runsScripts tenthGateway.engine) rfl hconveys
  refine ⟨htyped, (hblind rfl).mpr ⟨htyped, ?_⟩⟩
  intro v hv
  obtain rfl := Except.ok.inj hv
  rfl

/-- A map without a type stops the request to a node; the engine in the program runs the script with it. -/
theorem scripts_disagree :
    (scriptNode tenthGateway.engine).RunsScripts tenthGateway.engine id ∧
    tenthGateway.engine.Conveys tenthClient.backend.engine [] [.object []] ∧
    (tenthGateway.gateway.script [] [.object []] tenthClient).1 = .ok tenthPayload ∧
    ((scriptRemote tenthGateway.engine).gateway.script [] [.object []] tenthRemoteClient).1 =
      .error (.argument (.noType 0)) ∧
    ¬SameOutcome (tenthGateway.gateway.script [] [.object []] tenthClient).1
      ((scriptRemote tenthGateway.engine).gateway.script [] [.object []] tenthRemoteClient).1 := by
  have hconveys : tenthGateway.engine.Conveys tenthClient.backend.engine [] [.object []] :=
    conveys_tenth (List.forall_mem_singleton.mpr (.object List.nodup_nil nofun nofun)) nofun
  refine ⟨scriptNode_runsScripts _, hconveys, rfl, rfl, ?_⟩
  rintro ⟨_⟩

end Signatory
