import Signatory.Proofs.Gateway.Operation
import Signatory.Proofs.Gateway.Reading
import Signatory.Proofs.Gateway.Scripts

/-! Answers that cannot be read. Each call over a channel either comes to a message that brings what was asked for, or to
an error that the gateway has for it, or it is misread; then the error of the reader leaves the gateway as it is. -/

namespace Signatory
set_option autoImplicit false
open Outcome Wire
open Cbor (Value)

namespace Cbor

namespace Meaning

/-- The decimal digits of a power of two, be it a fraction. -/
def digitsOfPower (exponent : Int) : Nat :=
  if 0 ≤ exponent then 2 ^ exponent.toNat else 5 ^ (-exponent).toNat

/-- A decimal with an exponent within bounds. A binary one is worked out, and that is done in 28 digits. -/
def isExact (tag : Nat) (exponent m : Int) : Bool :=
  if tag = 4 then exponent.natAbs ≤ 999999
  else -40 ≤ exponent ∧ exponent ≤ 93 ∧ m.natAbs * digitsOfPower exponent < 10 ^ 28

def isBytes : Value → Bool
  | .bytes _ => true
  | _ => false

/-- The members of a set are keys, and byte strings all or none: then it is all one in which order they are read. -/
def isUniform (members : List Value) : Bool :=
  members.all Value.isKey && (members.all isBytes || members.all fun v => !isBytes v)

/-- A mark of which all is said that anybody asks: not a pattern, a mail or a network, nor a decimal that must be rounded,
nor a set whose order makes a difference. -/
def isCommon (tag : Nat) (item : Value) : Bool :=
  match of? tag item, item with
  | some .pattern, _ | some .mail, _ | some (.network _), _ => false
  | some .decimal, v => (integers? v).any fun p => isExact tag p.1 p.2
  | some .set, .list members | some .set, .tuple members => isUniform members
  | _, _ => true

end Meaning

namespace Value

mutual

/-- All marks in an item are common ones. -/
def isCommon : Value → Bool
  | list items => areCommon items
  | tuple items => areCommon items
  | map entries => areEntriesCommon entries
  | tagged tag item => Meaning.isCommon tag item && isCommon item
  | _ => true

def areCommon : List Value → Bool
  | [] => true
  | v :: vs => isCommon v && areCommon vs

def areEntriesCommon : List (Value × Value) → Bool
  | [] => true
  | (k, v) :: es => isCommon k && isCommon v && areEntriesCommon es

end

end Value

/-- The tags in a row of heads; what strings hold is passed over. -/
def tagsIn : (fuel : Nat) → Bytes → List Nat
  | 0, _ => []
  | _ + 1, [] => []
  | n + 1, first :: rest =>
    let major := first.toNat / 32
    match argument? (first.toNat % 32) rest with
    | none => tagsIn n rest
    | some (size, rest) =>
      if major = 2 ∨ major = 3 then tagsIn n (rest.drop size)
      else if major = 6 then size :: tagsIn n rest
      else tagsIn n rest

/-- What can be read has common marks only, and what cannot be read has no marks at all. -/
def isCommon (payload : Bytes) : Bool :=
  match decode? payload with
  | some v => v.isCommon
  | none => (tagsIn payload.length payload).isEmpty

end Cbor

/-- Whatever a node is asked, the marks in its answers are common ones. -/
def Node.AnswersCommonly {ν : Type} (N : Node ν) : Prop :=
  ∀ method request n response payload, (N.answer method request n).1 = .ok response →
    Frame.unwrap? response = some payload → Cbor.isCommon payload = true

namespace Remote

/-- The methods of a node. -/
inductive Method where
  | ping
  | account
  | send
  | transaction
  | result
  | script
  | latestBlock
  | blockNamed
  | blockAt
  | events
  | collection

namespace Method

def word : Method → String
  | ping => "Ping"
  | account => "GetAccountAtLatestBlock"
  | send => "SendTransaction"
  | transaction => "GetTransaction"
  | result => "GetTransactionResult"
  | script => "ExecuteScriptAtLatestBlock"
  | latestBlock => "GetLatestBlock"
  | blockNamed => "GetBlockByID"
  | blockAt => "GetBlockByHeight"
  | events => "GetEventsForHeightRange"
  | collection => "GetCollectionByID"

def name (m : Method) : Text := m.word

theorem name_injective {m n : Method} (h : m.name = n.name) : m = n := by
  have hword : m.word = n.word := Text.ofString_injective h
  cases m <;> cases n <;> first | rfl | simp [word] at hword

/-- What a message has to bring. -/
def Legible (m : Method) (message : Value) : Prop :=
  match m with
  | ping => True
  | account => Has message "account" AccountRecord.Legible
  | send => Has message "id" fun item => ∃ ticket, Ticket.ofItem? item = some ticket
  | transaction => Has message "transaction" LooseTransaction.Legible
  | result => TransactionResult.Legible message
  | script => Has message "value" Argument.Legible
  | latestBlock | blockNamed | blockAt => Has message "block" Block.Legible
  | events => MayHave message "results" (ItemsOf BlockEvents.Legible)
  | collection => Has message "collection" Collection.Legible

/-- The first thing found wrong in a message is an argument or a payload that is no typed value. -/
def Faults (m : Method) (message : Value) : Prop :=
  match m with
  | transaction => FindsFault (required "transaction" message >>= LooseTransaction.ofWire)
  | result => FindsFault (TransactionResult.ofWire message)
  | script => FindsFault (required "value" message >>= LooseTransaction.argumentOfWire)
  | events => FindsFault (reported message)
  | _ => False

/-- A message does not bring what it has to, and the first thing found wrong is no argument. -/
def Misreads (m : Method) (message : Value) : Prop := ¬m.Legible message ∧ ¬m.Faults message

theorem strays_iff_misreads {α : Type} {m : Method} {message : Value} {x : Except Error α}
    (hread : (∃ a, x = .ok a) ↔ m.Legible message) (hend : EndsIn Error.OfReading x)
    (hfault : FindsFault x ↔ m.Faults message) : Strays x ↔ m.Misreads message := by
  rw [strays_iff_of_endsIn hend, hread, hfault]
  exact Iff.rfl

/-- Where nothing is an argument. -/
theorem strays_iff_misreads_of_foreign {α : Type} {m : Method} {message : Value} {x : Except Error α}
    (hread : (∃ a, x = .ok a) ↔ m.Legible message) (hend : EndsIn (·.isForeign = true) x) (hnone : ¬m.Faults message) :
    Strays x ↔ m.Misreads message :=
  strays_iff_misreads hread (fun e he => .foreign e (hend e he)) (iff_of_false (not_findsFault hend) hnone)

section Reading

variable (message : Value)

theorem strays_account_iff : Strays (required "account" message >>= AccountRecord.ofWire) ↔ account.Misreads message :=
  strays_iff_misreads_of_foreign (exists_field_iff AccountRecord.exists_ofWire_iff)
    ((endsIn_required (fun _ => id) _ _).bind (AccountRecord.endsIn_ofWire fun _ => id)) not_false

theorem strays_send_iff : Strays (required "id" message >>= ticketOf) ↔ send.Misreads message := by
  have hread (v : Value) : (∃ ticket, ticketOf v = .ok ticket) ↔ ∃ ticket, Ticket.ofItem? v = some ticket := by
    unfold ticketOf
    cases Ticket.ofItem? v <;> simp
  exact strays_iff_misreads_of_foreign (exists_field_iff hread)
    ((endsIn_required (fun _ => id) _ _).bind (endsIn_ticketOf fun _ => id)) not_false

theorem strays_block_iff : Strays (required "block" message >>= Block.ofWire) ↔ latestBlock.Misreads message :=
  strays_iff_misreads_of_foreign (exists_field_iff Block.exists_ofWire_iff)
    ((endsIn_required (fun _ => id) _ _).bind (Block.endsIn_ofWire fun _ => id)) not_false

theorem strays_collection_iff :
    Strays (required "collection" message >>= Collection.ofWire) ↔ collection.Misreads message :=
  strays_iff_misreads_of_foreign (exists_field_iff Collection.exists_ofWire_iff)
    ((endsIn_required (fun _ => id) _ _).bind (Collection.endsIn_ofWire fun _ => id)) not_false

theorem strays_transaction_iff :
    Strays (required "transaction" message >>= LooseTransaction.ofWire) ↔ transaction.Misreads message :=
  strays_iff_misreads (exists_field_iff LooseTransaction.exists_ofWire_iff)
    ((endsIn_required .foreign _ _).bind (LooseTransaction.endsIn_ofWire .foreign .argument)) Iff.rfl

theorem strays_result_iff : Strays (TransactionResult.ofWire message) ↔ result.Misreads message :=
  strays_iff_misreads (TransactionResult.exists_ofWire_iff message)
    (TransactionResult.endsIn_ofWire .foreign .argument message) Iff.rfl

theorem strays_script_iff :
    Strays (required "value" message >>= LooseTransaction.argumentOfWire) ↔ script.Misreads message :=
  strays_iff_misreads (exists_field_iff LooseTransaction.exists_argumentOfWire_iff)
    ((endsIn_required .foreign _ _).bind (LooseTransaction.endsIn_argumentOfWire .foreign .argument)) Iff.rfl

theorem strays_events_iff : Strays (reported message) ↔ events.Misreads message :=
  strays_iff_misreads (exists_reported_iff message) (endsIn_reported .foreign .argument message) Iff.rfl

end Reading

end Method

end Remote

/-- The answer to a call is no message, or not one that brings what was asked for. -/
def Exchange.Misread (x : Exchange) : Prop :=
  Strays x.outcome ∨
    ∃ (m : Remote.Method) (message : Value), x.method = m.name ∧ x.outcome = .ok message ∧ m.Misreads message

namespace Remote

variable {ν : Type} (R : Remote ν)

/-- A request that cannot be written: of an envelope that does not tell its signers, with an argument that is too long, or
with surrogates in a type where the channel lets the error of that pass. -/
def Unsendable {α : Type} : Gateway.Operation α → Prop
  | .submit e => e.Unsubmittable
  | .script _ arguments => Argument.Clogged arguments
  | .events type first last => first ≤ last ∧ (∃ p ∈ type, p.isSurrogate = true) ∧
      ((R.node.unwritten .notUnicode).toError Method.events.name).isForeign = true
  | _ => False

/-- An action makes calls, and ends in a foreign error exactly if one of them is misread. -/
def Faithful {α : Type} (f : Action (Client (State ν)) α) : Prop :=
  ∀ c, ∃ calls, R.Talk c.backend calls (f c).2.backend ∧ (Strays (f c).1 ↔ ∃ x ∈ calls, x.Misread)

variable {R} {α β : Type}

theorem faithful_of_quiet {f : Action (Client (State ν)) α} (h : ∀ c, ¬Strays (f c).1 ∧ (f c).2.backend = c.backend) :
    R.Faithful f := by
  intro c
  obtain ⟨hanswer, hbackend⟩ := h c
  refine ⟨[], hbackend ▸ .nil, ?_⟩
  simpa using hanswer

theorem Faithful.bind {f : Action (Client (State ν)) α} {g : α → Action (Client (State ν)) β} (hf : R.Faithful f)
    (hg : ∀ c a, (f c).1 = .ok a → R.Faithful (g a)) : R.Faithful (f >>= g) := by
  intro c
  obtain ⟨calls, htalk, hiff⟩ := hf c
  have hg := hg c
  rcases hran : f c with ⟨error | a, c'⟩
  · rw [hran] at htalk hiff
    rw [Action.bind_of_error hran]
    exact ⟨calls, htalk, strays_error_congr.trans hiff⟩
  · rw [hran] at htalk hiff hg
    rw [Action.bind_of_ok hran]
    obtain ⟨calls', htalk', hiff'⟩ := hg a rfl c'
    refine ⟨calls ++ calls', htalk.append htalk', ?_⟩
    have hnone := hiff.not.mp (not_strays_ok a)
    rw [hiff']
    simp only [List.mem_append, or_and_right, exists_or]
    exact (or_iff_right hnone).symm

theorem faithful_lift_bind {x : Except Error α} {g : α → Action (Client (State ν)) β} (hx : ¬Strays x)
    (hg : ∀ a, x = .ok a → R.Faithful (g a)) : R.Faithful (liftM x >>= g) := by
  refine (faithful_of_quiet fun c => ⟨?_, rfl⟩).bind fun c a ha => hg a ha
  exact hx

/-- One call, and the reading of its answer. -/
theorem faithful_of_call {m : Method} {request : Value} {data : Bytes} (hdata : encodeMessage request = .ok data)
    {read : Value → Except Error α} (hread : ∀ message, Strays (read message) ↔ m.Misreads message)
    {f : Action (Client (State ν)) α}
    (hf : ∀ c, f c = ((R.call m.name request c).1 >>= read, (R.call m.name request c).2)) : R.Faithful f := by
  intro c
  rw [hf c]
  rcases R.call_cases m.name request c with ⟨error, herror, _⟩ | ⟨x, hmethod, _, houtcome, htalk⟩
  · rw [hdata] at herror
    cases herror
  · refine ⟨[x], htalk, ?_⟩
    simp only [List.mem_singleton, exists_eq_left, Exchange.Misread]
    rw [houtcome, strays_bind]
    refine or_congr_right ⟨?_, ?_⟩
    · rintro ⟨message, hmessage, hstrays⟩
      exact ⟨m, message, hmethod, hmessage, (hread message).mp hstrays⟩
    · rintro ⟨m', message, hname, hmessage, hmisreads⟩
      obtain rfl := Method.name_injective (hmethod.symm.trans hname)
      exact ⟨message, hmessage, (hread message).mpr hmisreads⟩

theorem faithful_fetch {m : Method} {request : Value} {data : Bytes} (hdata : encodeMessage request = .ok data)
    {name : Text} {read : Value → Except Error α}
    (hread : ∀ message, Strays (required name message >>= read) ↔ m.Misreads message) :
    R.Faithful (R.fetch m.name request name read) :=
  faithful_of_call hdata hread (R.fetch_eq m.name request name read)

theorem exists_encodeMessage {v : Value} (h : v.isUnicode = true) : ∃ data, encodeMessage v = .ok data := by
  rw [encodeMessage, Cbor.encode?, if_pos h]
  exact ⟨_, rfl⟩

theorem call_of_unwritable {request : Value} (h : ¬request.isUnicode = true) (method : Text) (c : Client (State ν)) :
    R.call method request c = (.error ((R.node.unwritten .notUnicode).toError method), c) := by
  have hfail : encodeMessage request = .error .notUnicode := by
    rw [encodeMessage, Cbor.encode?, if_neg h]
  rcases R.call_cases method request c with ⟨error, herror, hcall⟩ | ⟨_, _, hok, _⟩
  · obtain rfl := Except.error.inj (hfail.symm.trans herror)
    exact hcall
  · rw [hfail] at hok
    cases hok

theorem isUnicode_text {s : Text} : (Value.text s).isUnicode = true ↔ ∀ p ∈ s, p.isSurrogate = false := by
  rw [Value.isUnicode, Bool.not_eq_true', List.any_eq_false]
  simp only [Bool.not_eq_true]

theorem faithful_ping : R.Faithful R.gateway.ping := by
  obtain ⟨data, hdata⟩ := exists_encodeMessage (v := mapOf []) rfl
  have hread (message : Value) : Strays (.ok () : Except Error Unit) ↔ Method.ping.Misreads message :=
    iff_of_false (not_strays_ok ()) fun hmisread => hmisread.1 trivial
  exact faithful_of_call hdata hread (Action.bind_lift _ _)

theorem faithful_account (address : Bytes) : R.Faithful (R.gateway.account address) := by
  obtain ⟨data, hdata⟩ := exists_encodeMessage (v := mapOf [("address", .bytes address)]) rfl
  exact faithful_fetch (m := .account) hdata Method.strays_account_iff

theorem strays_toWire_iff (e : Envelope) : Strays e.toTransaction.toWire ↔ Argument.Clogged e.arguments := by
  rw [Transaction.toWire, strays_bind_pure, Argument.strays_mapM_encode_iff]

theorem submit_of_unsubmittable {e : Envelope} (h : e.Unsubmittable) (c : Client (State ν)) :
    ∃ error, R.gateway.submit e c = (.error error, c) ∧ error.isForeign = true := by
  rcases h with hundetermined | ⟨hcomplete, hclogged⟩
  · obtain ⟨error, herror, hforeign⟩ := e.strays_checkComplete_iff.mpr hundetermined
    exact ⟨error, Action.bind_of_error (congrArg (fun r => (r, c)) herror), hforeign⟩
  · obtain ⟨error, herror, hforeign⟩ := (strays_toWire_iff e).mpr hclogged
    refine ⟨error, ?_, hforeign⟩
    have hsubmit : R.submit e c = (.error error, c) := by
      unfold submit
      rw [Action.lift_bind_of_ok hcomplete]
      exact Action.bind_of_error (congrArg (fun r => (r, c)) herror)
    exact hsubmit

theorem faithful_submit {e : Envelope} (h : ¬e.Unsubmittable) : R.Faithful (R.gateway.submit e) := by
  rw [Envelope.Unsubmittable, not_or, not_and] at h
  refine faithful_lift_bind ((e.strays_checkComplete_iff).not.mpr h.1) fun _ hcomplete =>
    faithful_lift_bind ((strays_toWire_iff e).not.mpr (h.2 hcomplete)) fun item hitem => ?_
  obtain ⟨arguments, harguments, _⟩ := bind_eq_ok.mp hitem
  have hsent := Transaction.sent_eq_ok harguments
  rw [Transaction.sent, hitem] at hsent
  exact faithful_fetch (m := .send) hsent Method.strays_send_iff

theorem script_of_clogged {arguments : List Json} (h : Argument.Clogged arguments) (script : Bytes)
    (c : Client (State ν)) :
    ∃ error, R.gateway.script script arguments c = (.error error, c) ∧ error.isForeign = true := by
  obtain ⟨error, herror, hforeign⟩ := (Argument.strays_mapM_encode_iff arguments).mpr h
  exact ⟨error, Action.bind_of_error (congrArg (fun r => (r, c)) herror), hforeign⟩

theorem faithful_script (script : Bytes) {arguments : List Json} (h : ¬Argument.Clogged arguments) :
    R.Faithful (R.gateway.script script arguments) := by
  refine faithful_lift_bind ((Argument.strays_mapM_encode_iff arguments).not.mpr h) fun encoded _ => ?_
  have hdata := encodeMessage_of_portable (fits_scriptRequest script encoded).portable
  exact faithful_fetch (m := .script) hdata Method.strays_script_iff

theorem faithful_blockAt (height : Int) : R.Faithful (R.blockAt height) := by
  obtain ⟨data, hdata⟩ := exists_encodeMessage (v := mapOf [("height", .int height)]) rfl
  exact faithful_fetch (m := .blockAt) hdata Method.strays_block_iff

theorem faithful_fetchResult (ticket : Ticket) : R.Faithful (R.fetchResult ticket) := by
  have hunicode : (mapOf [("id", ticket.item)]).isUnicode = true := by
    cases ticket <;> rfl
  obtain ⟨data, hdata⟩ := exists_encodeMessage hunicode
  exact faithful_of_call (m := .result) hdata Method.strays_result_iff (R.fetchResult_eq ticket)

theorem faithful_eventsAt (batches : List BlockEvents) (height : Int) : R.Faithful (R.eventsAt batches height) := by
  refine (faithful_blockAt height).bind fun _ block _ => ?_
  split
  · exact faithful_of_quiet fun c => ⟨not_strays_ok _, rfl⟩
  · split
    · exact faithful_of_quiet fun c => ⟨not_strays_ok _, rfl⟩
    · exact faithful_of_quiet fun c => ⟨not_strays_ok _, rfl⟩

theorem faithful_eventsFrom (batches : List BlockEvents) (count : Nat) (height : Int) :
    R.Faithful (R.eventsFrom batches count height) := by
  induction count generalizing height with
  | zero => exact faithful_of_quiet fun c => ⟨not_strays_ok _, rfl⟩
  | succ count ih =>
    refine (faithful_eventsAt batches height).bind fun _ batch _ => (ih (height + 1)).bind fun _ rest _ => ?_
    exact faithful_of_quiet fun c => ⟨not_strays_ok _, rfl⟩

theorem events_eq (type : Text) (first last : Int) :
    R.events type first last = liftM (Gateway.checkRange first last) >>= fun _ =>
      (R.call "GetEventsForHeightRange"
        (mapOf [("type", .text type), ("start_height", .int first), ("end_height", .int last)]) >>= fun response =>
          liftM (reported response)) >>= fun batches => R.eventsFrom batches (last - first + 1).toNat first := by
  unfold events reported
  simp only [Action.lift_bind, bind_assoc]

theorem isUnicode_eventsRequest {type : Text} {first last : Int} :
    (mapOf [("type", .text type), ("start_height", .int first), ("end_height", .int last)]).isUnicode = true ↔
      ∀ p ∈ type, p.isSurrogate = false := by
  have htype : (mapOf [("type", .text type), ("start_height", .int first), ("end_height", .int last)]).isUnicode =
      ((Value.text type).isUnicode && true) := rfl
  rw [htype, Bool.and_true, isUnicode_text]

theorem checkRange_eq_ok_iff {first last : Int} : Gateway.checkRange first last = .ok () ↔ first ≤ last := by
  unfold Gateway.checkRange
  split
  · exact iff_of_false nofun (by omega)
  · exact iff_of_true rfl (by omega)

theorem not_strays_checkRange (first last : Int) : ¬Strays (Gateway.checkRange first last) := by
  unfold Gateway.checkRange
  split
  · exact not_strays_error rfl
  · exact not_strays_ok _

theorem events_of_unwritable {type : Text} {first last : Int} (hle : first ≤ last)
    (h : ∃ p ∈ type, p.isSurrogate = true) (c : Client (State ν)) :
    R.gateway.events type first last c = (.error ((R.node.unwritten .notUnicode).toError Method.events.name), c) := by
  have hrequest : ¬(mapOf [("type", .text type), ("start_height", .int first), ("end_height", .int last)]).isUnicode =
      true := by
    rw [isUnicode_eventsRequest]
    obtain ⟨p, hp, hsurrogate⟩ := h
    exact fun hall => Bool.false_ne_true ((hall p hp).symm.trans hsurrogate)
  have hevents : R.events type first last c =
      (.error ((R.node.unwritten .notUnicode).toError Method.events.name), c) := by
    rw [events_eq, Action.lift_bind_of_ok (checkRange_eq_ok_iff.mpr hle)]
    exact Action.bind_of_error (Action.bind_of_error (call_of_unwritable hrequest _ c))
  exact hevents

theorem faithful_events {type : Text} {first last : Int} (h : first ≤ last → ∀ p ∈ type, p.isSurrogate = false) :
    R.Faithful (R.gateway.events type first last) := by
  have hevents : R.Faithful (R.events type first last) := by
    rw [events_eq]
    refine faithful_lift_bind (not_strays_checkRange first last) fun _ hchecked =>
      Faithful.bind ?_ fun _ batches _ => faithful_eventsFrom _ _ _
    have hle := checkRange_eq_ok_iff.mp hchecked
    obtain ⟨data, hdata⟩ := exists_encodeMessage (isUnicode_eventsRequest.mpr (h hle))
    exact faithful_of_call (m := .events) hdata Method.strays_events_iff (Action.bind_lift _ _)
  exact hevents

/-- A wait for a result is a number of looks at it. -/
theorem faithful_result {ticket : Ticket} {wait : Bool} {timeout : Option Number} {c : Client (State ν)}
    (h : (Gateway.Operation.result ticket wait timeout).Timed R.pollInterval c) :
    ∃ calls, R.Talk c.backend calls (R.gateway.result ticket wait timeout c).2.backend ∧
      (Strays (R.gateway.result ticket wait timeout c).1 ↔ ∃ x ∈ calls, x.Misread) := by
  cases wait with
  | false => exact faithful_fetchResult ticket c
  | true =>
    obtain ⟨hdoubles, hinterval, htimeout⟩ := h
    let untroubled (b : State ν) : Prop := ∃ calls, R.Talk c.backend calls b ∧ ¬∃ x ∈ calls, x.Misread
    let told (answer : Except Error TransactionResult) (b : State ν) : Prop :=
      ∃ calls, R.Talk c.backend calls b ∧ (Strays answer ↔ ∃ x ∈ calls, x.Misread)
    have hleads : (Client.world R.gateway.fetchResult).Leads ticket (fun c => c.InDoubles ∧ untroubled c.backend) Number.Near
        fun answer c => told answer c.backend := by
      refine Client.world_leads ?_ ?_ ?_
      · rintro s ⟨calls, htalk, hnone⟩
        obtain ⟨calls', htalk', hiff⟩ := faithful_fetchResult (R := R) ticket s
        have hall : (∃ x ∈ calls ++ calls', x.Misread) ↔ ∃ x ∈ calls', x.Misread := by
          simp only [List.mem_append, or_and_right, exists_or]
          exact or_iff_right hnone
        refine ⟨⟨calls ++ calls', htalk.append htalk', hiff.trans hall.symm⟩, ?_⟩
        intro r hr
        have hr : (R.fetchResult ticket s).1 = .ok r := hr
        refine ⟨calls ++ calls', htalk.append htalk', ?_⟩
        rw [hall, ← hiff, hr]
        exact not_strays_ok r
      · intro s hs
        have hafter : (R.gateway.fetchResult ticket s).2 = (R.call inquiry (mapOf [("id", ticket.item)]) s).2 :=
          congrArg Prod.snd (R.fetchResult_eq ticket s)
        rw [hafter]
        exact ⟨hs.now, hs.signal⟩
      · rintro e b hgiven ⟨calls, htalk, hnone⟩
        exact ⟨calls, htalk, iff_of_false (not_strays_error hgiven.isForeign) hnone⟩
    exact Poll.waitForSeal_leads hleads hinterval htimeout Client.patience ⟨hdoubles, [], .nil, by simp⟩

theorem Faithful.sendable {f : Action (Client (State ν)) α} (h : R.Faithful f) {unsendable : Prop} (hno : ¬unsendable)
    (c : Client (State ν)) : ∃ calls, R.Talk c.backend calls (f c).2.backend ∧
      (Strays (f c).1 ↔ unsendable ∨ ∃ x ∈ calls, x.Misread) := by
  obtain ⟨calls, htalk, hiff⟩ := h c
  exact ⟨calls, htalk, hiff.trans (or_iff_right hno).symm⟩

/-- What stops before anything is sent, in an error that is foreign exactly if the request cannot be sent. -/
theorem unsent {x : Except Error α × Client (State ν)} {c : Client (State ν)} {error : Error} {unsendable : Prop}
    (hx : x = (.error error, c)) (h : error.isForeign = true ↔ unsendable) :
    ∃ calls, R.Talk c.backend calls x.2.backend ∧ (Strays x.1 ↔ unsendable ∨ ∃ x ∈ calls, x.Misread) := by
  subst hx
  refine ⟨[], .nil, ?_⟩
  rw [strays_error, h]
  simp

/-- An operation ends in a foreign error exactly if its request cannot be written or an answer is misread. -/
theorem perform_strays_iff (op : Gateway.Operation α) {c : Client (State ν)} (h : op.Timed R.pollInterval c) :
    ∃ calls, R.Talk c.backend calls (R.gateway.perform op c).2.backend ∧
      (Strays (R.gateway.perform op c).1 ↔ R.Unsendable op ∨ ∃ x ∈ calls, x.Misread) := by
  cases op with
  | ping => exact faithful_ping.sendable not_false c
  | account address => exact (faithful_account address).sendable not_false c
  | submit e =>
    by_cases he : e.Unsubmittable
    · obtain ⟨error, hsubmit, hforeign⟩ := submit_of_unsubmittable (R := R) he c
      exact unsent hsubmit (iff_of_true hforeign he)
    · exact (faithful_submit he).sendable he c
  | transaction id =>
    obtain ⟨data, hdata⟩ := exists_encodeMessage (v := mapOf [("id", .bytes id)]) rfl
    have hfetch : R.Faithful (R.gateway.transaction id) :=
      faithful_fetch (m := .transaction) hdata Method.strays_transaction_iff
    exact hfetch.sendable not_false c
  | result ticket wait timeout =>
    obtain ⟨calls, htalk, hiff⟩ := faithful_result h
    exact ⟨calls, htalk, hiff.trans (or_iff_right not_false).symm⟩
  | script script arguments =>
    by_cases hclogged : Argument.Clogged arguments
    · obtain ⟨error, hscript, hforeign⟩ := script_of_clogged (R := R) hclogged script c
      exact unsent hscript (iff_of_true hforeign hclogged)
    · exact (faithful_script script hclogged).sendable hclogged c
  | latestBlock =>
    obtain ⟨data, hdata⟩ := exists_encodeMessage (v := mapOf [("is_sealed", .bool true)]) rfl
    have hfetch : R.Faithful R.gateway.latestBlock := faithful_fetch (m := .latestBlock) hdata Method.strays_block_iff
    exact hfetch.sendable not_false c
  | blockNamed id =>
    obtain ⟨data, hdata⟩ := exists_encodeMessage (v := mapOf [("id", .bytes id)]) rfl
    have hfetch : R.Faithful (R.gateway.blockNamed id) := faithful_fetch (m := .blockNamed) hdata Method.strays_block_iff
    exact hfetch.sendable not_false c
  | blockAt height => exact (faithful_blockAt height).sendable not_false c
  | events type first last =>
    by_cases hbroken : first ≤ last ∧ ∃ p ∈ type, p.isSurrogate = true
    · obtain ⟨hle, hsurrogate⟩ := hbroken
      refine unsent (events_of_unwritable hle hsurrogate c) ?_
      exact ⟨fun hforeign => ⟨hle, hsurrogate, hforeign⟩, fun h => h.2.2⟩
    · refine (faithful_events fun hle p hp => ?_).sendable (fun h => hbroken ⟨h.1, h.2.1⟩) c
      rw [← Bool.not_eq_true]
      exact fun hsurrogate => hbroken ⟨hle, p, hp, hsurrogate⟩
  | collection id =>
    obtain ⟨data, hdata⟩ := exists_encodeMessage (v := mapOf [("id", .bytes id)]) rfl
    have hfetch : R.Faithful (R.gateway.collection id) :=
      faithful_fetch (m := .collection) hdata Method.strays_collection_iff
    exact hfetch.sendable not_false c

end Remote

end Signatory
