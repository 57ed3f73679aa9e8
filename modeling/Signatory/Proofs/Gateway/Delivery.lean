import Signatory.Proofs.Gateway.Drafting
import Signatory.Proofs.Gateway.RemoteEvents
import Signatory.Proofs.Poll
import Signatory.Proofs.Transaction.Completion
import Signatory.Proofs.Wire.Transaction

/-! What goes over the channel when a draft is sent to a node: two reads, one transaction, and then looks at its result.
Nothing follows a call that failed, and what is sent has been signed by all who must sign it. -/

namespace Signatory
set_option autoImplicit false
open Outcome Wire
open Cbor (Value encode)

/-- One call over a channel, and what its answer was read as. -/
structure Exchange where
  method : Text
  request : Bytes
  outcome : Except Error Value

namespace Exchange

def Answered (x : Exchange) : Prop := ∃ message, x.outcome = .ok message

/-- Calls in the order of some methods, as far as the first that fails. When all is done, every method has been called,
and every call answered. -/
structure Course (methods : List Text) (calls : List Exchange) (done : Prop) : Prop where
  order : calls.map method <+: methods
  answered : ∀ x ∈ calls.dropLast, x.Answered
  complete : done → calls.map method = methods ∧ ∀ x ∈ calls, x.Answered

variable {methods methods' : List Text} {calls calls' : List Exchange} {done done' : Prop}

theorem Course.none (hdone : ¬done) : Course methods [] done where
  order := List.nil_prefix
  answered _ hx := by cases hx
  complete h := absurd h hdone

theorem Course.one {x : Exchange} (h : done → x.Answered) : Course [x.method] [x] done where
  order := List.prefix_rfl
  answered _ hx := by cases hx
  complete hdone := ⟨rfl, List.forall_mem_singleton.mpr (h hdone)⟩

theorem Course.imp (h : Course methods calls done) (hdone : done' → done) : Course methods calls done' :=
  ⟨h.order, h.answered, fun hdone' => h.complete (hdone hdone')⟩

theorem Course.stop (h : Course methods calls done) (hdone : ¬done') : Course (methods ++ methods') calls done' where
  order := h.order.trans (List.prefix_append _ _)
  answered := h.answered
  complete h := absurd h hdone

theorem Course.append (h : Course methods calls done) (hdone : done) (h' : Course methods' calls' done') :
    Course (methods ++ methods') (calls ++ calls') done' := by
  obtain ⟨hmethods, hall⟩ := h.complete hdone
  constructor
  · rw [List.map_append, hmethods]
    exact List.prefix_append_right_inj methods |>.mpr h'.order
  · intro x hx
    by_cases hempty : calls' = []
    · rw [hempty, List.append_nil] at hx
      exact h.answered x hx
    · rw [List.dropLast_append_of_ne_nil hempty] at hx
      rcases List.mem_append.mp hx with hx | hx
      · exact hall x hx
      · exact h'.answered x hx
  · intro hdone'
    obtain ⟨hmethods', hall'⟩ := h'.complete hdone'
    refine ⟨by rw [List.map_append, hmethods, hmethods'], ?_⟩
    intro x hx
    rcases List.mem_append.mp hx with hx | hx
    · exact hall x hx
    · exact hall' x hx

theorem Course.method_mem (h : Course methods calls done) {x : Exchange} (hx : x ∈ calls) : x.method ∈ methods :=
  h.order.subset (List.mem_map_of_mem hx)

end Exchange

open Exchange (Course)

namespace Remote

variable {ν : Type} (R : Remote ν)

def reads : List Text := ["GetAccountAtLatestBlock", "GetLatestBlock"]

def submission : Text := "SendTransaction"

/-- The call that looks at the result of a transaction. -/
def inquiry : Text := "GetTransactionResult"

def event (x : Exchange) : ChannelEvent := .call (path x.method) x.request R.timeout R.metadata

/-- Calls one after another, each answered by the node as the one before has left it. -/
inductive Talk : State ν → List Exchange → State ν → Prop where
  | nil {s : State ν} : Talk s [] s
  | cons {s s' : State ν} {method : Text} {request : Bytes} {answer : Except CallFailure Bytes} {node : ν}
      {calls : List Exchange} : R.node.answer method request s.node = (answer, node) →
      Talk ⟨node, s.sent ++ [R.event ⟨method, request, R.reading method answer⟩]⟩ calls s' →
      Talk s (⟨method, request, R.reading method answer⟩ :: calls) s'

variable {R}

theorem Talk.append {s s' s'' : State ν} {calls calls' : List Exchange} (h : R.Talk s calls s')
    (h' : R.Talk s' calls' s'') : R.Talk s (calls ++ calls') s'' := by
  induction h with
  | nil => exact h'
  | cons hanswer _ ih => exact .cons hanswer (ih h')

theorem Talk.sent_eq {s s' : State ν} {calls : List Exchange} (h : R.Talk s calls s') :
    s'.sent = s.sent ++ calls.map R.event := by
  induction h with
  | nil => rw [List.map_nil, List.append_nil]
  | cons _ _ ih => rw [ih, List.append_assoc, List.map_cons, List.singleton_append]

variable (R)

/-- A request that can be written goes out, and the answer is what the call comes to. -/
theorem call_cases (method : Text) (request : Value) (c : Client (State ν)) :
    (∃ error, encodeMessage request = .error error ∧
        R.call method request c = (.error ((R.node.unwritten error).toError method), c)) ∨
      ∃ x, x.method = method ∧ encodeMessage request = .ok x.request ∧ (R.call method request c).1 = x.outcome ∧
        R.Talk c.backend [x] (R.call method request c).2.backend := by
  unfold call Client.onBackend
  cases encodeMessage request with
  | error error => exact .inl ⟨error, rfl, rfl⟩
  | ok data =>
    exact .inr ⟨⟨method, data, R.reading method (R.node.answer method data c.backend.node).1⟩, rfl, rfl, rfl,
      .cons rfl .nil⟩

/-- An operation makes one call and reads its answer. -/
def Asks {α : Type} (f : Action (Client (State ν)) α) (method : Text) (request : Value) : Prop :=
  ∃ read : Value → Except Error α, ∀ c, f c = ((R.call method request c).1 >>= read, (R.call method request c).2)

theorem fetch_eq {α : Type} (method : Text) (request : Value) (name : Text) (read : Value → Except Error α)
    (c : Client (State ν)) :
    R.fetch method request name read c = ((R.call method request c).1 >>= fun response => required name response >>= read,
      (R.call method request c).2) := by
  have hfetch : R.fetch method request name read =
      R.call method request >>= fun response => liftM (required name response >>= read) := by
    simp only [Action.lift_bind]
    rfl
  rw [hfetch, Action.bind_lift]

theorem fetch_asks {α : Type} (method : Text) (request : Value) (name : Text) (read : Value → Except Error α) :
    R.Asks (R.fetch method request name read) method request := ⟨_, R.fetch_eq method request name read⟩

theorem fetchResult_eq (ticket : Ticket) (c : Client (State ν)) :
    R.fetchResult ticket c = ((R.call inquiry (mapOf [("id", ticket.item)]) c).1 >>= TransactionResult.ofWire,
      (R.call inquiry (mapOf [("id", ticket.item)]) c).2) :=
  Action.bind_lift _ _ c

theorem fetchResult_asks (ticket : Ticket) : R.Asks (R.fetchResult ticket) inquiry (mapOf [("id", ticket.item)]) :=
  ⟨_, R.fetchResult_eq ticket⟩

variable {R}

theorem Asks.course {α : Type} {f : Action (Client (State ν)) α} {method : Text} {request : Value}
    (h : R.Asks f method request) (c : Client (State ν)) :
    ∃ calls, R.Talk c.backend calls (f c).2.backend ∧ Course [method] calls (∃ a, (f c).1 = .ok a) ∧
      ∀ x ∈ calls, encodeMessage request = .ok x.request := by
  obtain ⟨read, hf⟩ := h
  rw [hf c]
  rcases R.call_cases method request c with ⟨error, _, hcall⟩ | ⟨x, rfl, hrequest, houtcome, htalk⟩
  · rw [hcall]
    exact ⟨[], .nil, .none not_exists_ok, by simp⟩
  · refine ⟨[x], htalk, .one ?_, List.forall_mem_singleton.mpr hrequest⟩
    rintro ⟨_, hok⟩
    obtain ⟨message, hmessage, _⟩ := bind_eq_ok.mp hok
    exact ⟨message, houtcome ▸ hmessage⟩

theorem submit_cases (e : Envelope) (c : Client (State ν)) :
    (∃ error, R.submit e c = (.error error, c)) ∨ ∃ item, e.toTransaction.toWire = .ok item ∧
      R.submit e c = R.fetch "SendTransaction" (mapOf [("transaction", item)]) "id" ticketOf c := by
  unfold submit
  cases e.checkComplete with
  | error error => exact .inl ⟨error, rfl⟩
  | ok _ =>
    rw [Action.lift_bind_of_ok rfl]
    cases e.toTransaction.toWire with
    | error error => exact .inl ⟨error, rfl⟩
    | ok item => exact .inr ⟨item, rfl, Action.lift_bind_of_ok rfl⟩

theorem submit_course (e : Envelope) (c : Client (State ν)) :
    ∃ calls, R.Talk c.backend calls (R.submit e c).2.backend ∧
      Course [submission] calls (∃ id, (R.submit e c).1 = .ok id) ∧
      ∀ x ∈ calls, e.toTransaction.sent = .ok x.request := by
  rcases R.submit_cases e c with ⟨error, hsubmit⟩ | ⟨item, hitem, hsubmit⟩
  · rw [hsubmit]
    exact ⟨[], .nil, .none not_exists_ok, by simp⟩
  · rw [hsubmit]
    obtain ⟨calls, htalk, hcourse, hrequests⟩ :=
      (R.fetch_asks "SendTransaction" (mapOf [("transaction", item)]) "id" ticketOf).course c
    refine ⟨calls, htalk, hcourse, ?_⟩
    intro x hx
    rw [Transaction.sent, hitem]
    exact hrequests x hx

/-- However long it is waited for a result, the calls are looks at it. -/
theorem result_course (wait : Bool) (timeout : Option Number) (looks : Nat) (ticket : Ticket)
    (c : Client (State ν)) :
    let answer := if wait then
      Poll.waitForSeal (Client.world R.gateway.fetchResult) Number.render ⟨R.gateway.pollInterval, timeout⟩ ticket looks c
      else R.gateway.fetchResult ticket c
    ∃ calls n, R.Talk c.backend calls answer.2.backend ∧
      Course (List.replicate n inquiry) calls (∃ r, answer.1 = .ok r) := by
  intro answer
  cases wait with
  | false =>
    obtain ⟨calls, htalk, hcourse, _⟩ := (R.fetchResult_asks ticket).course c
    exact ⟨calls, 1, htalk, hcourse⟩
  | true =>
    let reached (done : Prop) (s : Client (State ν)) : Prop := ∃ calls n, R.Talk c.backend calls s.backend ∧
      Course (List.replicate n inquiry) calls done
    have hsame {s s' : Client (State ν)} (hbackend : s'.backend = s.backend) (h : reached True s) : reached True s' := by
      unfold reached
      rw [hbackend]
      exact h
    have hleads : (Client.world R.gateway.fetchResult).Leads ticket (reached True) (fun _ => True) fun answer s =>
        reached (∃ r, answer = .ok r) s := by
      refine .of_stop ?_ ?_ ?_ ?_ ?_
      · intro s _ s' hcancelled
        exact hsame ((congrArg (fun r => r.2.backend) hcancelled).symm.trans s.isCancelled_backend)
      · rintro s answer s' hfetch ⟨calls, n, htalk, hcourse⟩
        obtain ⟨calls', htalk', hcourse', _⟩ := (R.fetchResult_asks ticket).course s
        have hfetch : R.fetchResult ticket s = (answer, s') := hfetch
        rw [hfetch] at htalk' hcourse'
        have happend := hcourse.append trivial hcourse'
        rw [← List.replicate_one, ← List.replicate_add] at happend
        refine ⟨⟨calls ++ calls', n + 1, htalk.append htalk', happend⟩, ?_⟩
        intro r hr
        exact ⟨calls ++ calls', n + 1, htalk.append htalk', happend.imp fun _ => ⟨r, hr⟩⟩
      · intro length s _ s' hpause
        exact hsame ((congrArg (fun r => r.2.backend) hpause).symm.trans (Client.pause_backend length s))
      · intro message s
        exact hsame rfl
      · rintro error s ⟨calls, n, htalk, hcourse⟩
        exact ⟨calls, n, htalk, hcourse.imp fun hok => absurd hok not_exists_ok⟩
    exact Poll.waitForSeal_leads hleads trivial (fun _ _ => trivial) looks
      ⟨[], 0, .nil, ⟨List.nil_prefix, by simp, by simp⟩⟩

variable {roles : Roles} {d : Draft Envelope (State ν)}

theorem proposer_course (e : Envelope) (c : Client (State ν)) :
    ∃ calls, R.Talk c.backend calls (Sendable.proposer R.gateway e c).2.backend ∧
      Course ["GetAccountAtLatestBlock"] calls (∃ a, (Sendable.proposer R.gateway e c).1 = .ok a) := by
  obtain ⟨calls, htalk, hcourse, _⟩ := (R.fetch_asks "GetAccountAtLatestBlock"
    (mapOf [("address", .bytes e.proposalKey.address)]) "account" AccountRecord.ofWire).course c
  exact ⟨calls, htalk, hcourse⟩

theorem latestBlock_course (c : Client (State ν)) :
    ∃ calls, R.Talk c.backend calls (R.gateway.latestBlock c).2.backend ∧
      Course ["GetLatestBlock"] calls (∃ b, (R.gateway.latestBlock c).1 = .ok b) := by
  obtain ⟨calls, htalk, hcourse, _⟩ := (R.fetch_asks "GetLatestBlock"
    (mapOf [("is_sealed", .bool true)]) "block" Block.ofWire).course c
  exact ⟨calls, htalk, hcourse⟩

theorem learns_course {key : KeyRecord} {block : Block} {left : Client (State ν)}
    (h : Draft.Learns R.gateway d key block left) :
    ∃ calls, R.Talk d.client.backend calls left.backend ∧ Course reads calls True := by
  obtain ⟨account, between, haccount, _, _, hblock⟩ := h
  obtain ⟨first, hfirst, hcourse⟩ := proposer_course (R := R) d.paper d.client
  obtain ⟨second, hsecond, hcourse'⟩ := latestBlock_course (R := R) between
  rw [haccount] at hfirst hcourse
  rw [hblock] at hsecond hcourse'
  exact ⟨first ++ second, hfirst.append hsecond, (hcourse.append ⟨account, rfl⟩ hcourse').imp fun _ => ⟨block, rfl⟩⟩

theorem stopped_course {left : Client (State ν)} (h : Draft.Stopped R.gateway d left) :
    ∃ calls, R.Talk d.client.backend calls left.backend ∧ Course reads calls False := by
  obtain ⟨first, hfirst, hcourse⟩ := proposer_course (R := R) d.paper d.client
  rcases h with rfl | ⟨account, between, haccount, rfl⟩
  · exact ⟨first, hfirst, hcourse.stop id⟩
  · obtain ⟨second, hsecond, hcourse'⟩ := latestBlock_course (R := R) between
    rw [haccount] at hfirst hcourse
    exact ⟨first ++ second, hfirst.append hsecond, (hcourse.append ⟨account, rfl⟩ hcourse').imp False.elim⟩

/-- A request carries a paper, as all of its roles have signed it after it was prepared from what the node has told. -/
def Carries (R : Remote ν) (roles : Roles) (d : Draft Envelope (State ν)) (paper : Envelope) (request : Bytes) : Prop :=
  ∃ key block left proposer payer m payload envelope, Draft.Learns R.gateway d key block left ∧
    let prepared := Sendable.prepared block.id Envelope.defaultGasLimit key.sequenceNumber d.paper
    Signable.Signed prepared roles proposer payer m payload envelope ∧ paper = Signable.replace prepared m ∧
      paper.toTransaction.sent = .ok request

/-- Calls by some methods send a draft: they are what the node is asked until something fails, and a transaction among
them carries the paper. -/
structure Sends (R : Remote ν) (roles : Roles) (d : Draft Envelope (State ν)) {α : Type} (methods : List Text)
    (calls : List Exchange) (result : Except Error α × Draft Envelope (State ν)) : Prop where
  talk : R.Talk d.client.backend calls result.2.client.backend
  course : Course methods calls (∃ a, result.1 = .ok a)
  carried : ∀ x ∈ calls, x.method = submission → R.Carries roles d result.2.paper x.request

theorem send_course (hroles : d.paper.roles = some roles) :
    ∃ calls, R.Sends roles d (reads ++ [submission]) calls (Draft.send R.gateway d) := by
  have hreads {calls : List Exchange} {done : Prop} (h : Course reads calls done) {x : Exchange} (hx : x ∈ calls) :
      x.method ≠ submission := by
    have hmethod := h.method_mem hx
    intro hsame
    rw [hsame] at hmethod
    revert hmethod
    decide
  unfold Draft.send
  rcases Draft.prepare_cases R.gateway d Envelope.defaultGasLimit with
    ⟨error, left, hprepare, hstopped⟩ | ⟨key, block, left, hlearns⟩
  · have hrun : Draft.run R.gateway Envelope.defaultGasLimit d = (.error error, ⟨d.paper, left⟩) :=
      Action.bind_of_error hprepare
    rw [Action.bind_of_error hrun]
    obtain ⟨calls, htalk, hcourse⟩ := stopped_course hstopped
    exact ⟨calls, htalk, hcourse.stop not_exists_ok, fun x hx hsend => absurd hsend (hreads hcourse hx)⟩
  · obtain ⟨calls, htalk, hcourse⟩ := learns_course hlearns
    have hrun := Draft.run_of_learns hlearns Envelope.defaultGasLimit
    have hattached : Signable.roles
        (Sendable.prepared block.id Envelope.defaultGasLimit key.sequenceNumber d.paper) = some roles := hroles
    rcases Draft.sign_of_attached (d := ⟨_, left⟩) hattached with
      ⟨proposer, payer, m, payload, envelope, hsigned, hsign⟩ | ⟨error, client, hclient, hsign⟩
    · rw [hsign] at hrun
      rw [Action.bind_of_ok hrun]
      obtain ⟨calls', htalk', hcourse', hrequests⟩ := R.submit_course _ left
      refine ⟨calls ++ calls', htalk.append htalk', hcourse.append trivial hcourse', ?_⟩
      intro x hx hsend
      rcases List.mem_append.mp hx with hx | hx
      · exact absurd hsend (hreads hcourse hx)
      · exact ⟨key, block, left, proposer, payer, m, payload, envelope, hlearns, hsigned, rfl, hrequests x hx⟩
    · rw [hsign] at hrun
      rw [Action.bind_of_error hrun]
      refine ⟨calls, ?_, hcourse.stop not_exists_ok, fun x hx hsend => absurd hsend (hreads hcourse hx)⟩
      rw [hclient]
      exact htalk

/-- What is carried is read as the paper that was signed, with the same identifier. -/
theorem Carries.received {paper : Envelope} {request : Bytes} (h : R.Carries roles d paper request)
    (htyped : ∀ v ∈ d.paper.arguments, ∃ b, Argument.encode v = .ok b) (hportable : ∀ v ∈ d.paper.arguments, v.Portable)
    (hsize : request.length < Frame.sizeLimit) :
    ∃ t arguments, LooseTransaction.received request = .ok t ∧ List.Forall₂ Json.Reordered paper.arguments arguments ∧
      LooseEnvelope.regular? ⟨t, none⟩ = some { paper with arguments, roles := none } ∧
      ∀ suite, ∃ id, t.id suite = .ok id ∧ paper.id suite = .ok id := by
  obtain ⟨key, block, left, proposer, payer, m, payload, envelope, _, _, rfl, hsent⟩ := h
  generalize hpaper : Signable.replace (Sendable.prepared block.id _ key.sequenceNumber d.paper) m = paper at hsent
  have harguments : paper.arguments = d.paper.arguments := by
    rw [← hpaper]
    rfl
  have hready : paper.Ready := by
    refine ⟨?_, harguments ▸ htyped⟩
    rw [← hpaper]
    rfl
  rw [← harguments] at htyped hportable
  obtain ⟨data, hdata, hreceived⟩ := Transaction.received_sent htyped hportable
  obtain rfl := Except.ok.inj (hsent.symm.trans hdata)
  obtain ⟨_, _, hpreimage⟩ := Transaction.messages_inOrder hportable
  obtain ⟨v, _, hitem⟩ := hready.exists_payloadItem
  refine ⟨_, paper.arguments.map Json.canonical, hreceived hsize, ?_, ?_, ?_⟩
  · rw [List.forall₂_map_right_iff, List.forall₂_same]
    exact fun v _ => Json.reordered_canonical v
  · rw [LooseEnvelope.regular?, Transaction.regular?_loosen]
    rfl
  · intro suite
    refine ⟨_, ?_, Transaction.id_eq_ok.mpr ⟨_, Transaction.idPreimage_eq hitem, rfl⟩⟩
    rw [Transaction.id_loosen]
    exact Transaction.id_eq_ok.mpr ⟨_, hpreimage.trans (Transaction.idPreimage_eq hitem), rfl⟩

end Remote

namespace Draft

variable {β : Type}

/-- Sends a draft and fetches the result, with so many looks at it at most where it is waited for. -/
def sendAndLook {ε : Type} [Sendable ε] (G : Gateway β) (looks : Nat) (wait : Bool) (timeout : Option Number) :
    Action (Draft ε β) TransactionResult := do
  let ticket ← send G
  let result ← call fun c =>
    if wait then
      Poll.waitForSeal (Client.world G.fetchResult) Number.render ⟨G.pollInterval, timeout⟩ ticket looks c
    else G.fetchResult ticket c
  if result.failed then
    call (modify fun c =>
      c.log .warning (.concat ["Transaction ", ticket.hex, " failed: ", result.errorMessage]))
  return result

theorem signAndSubmit_eq {ε : Type} [Sendable ε] (G : Gateway β) (wait : Bool) (timeout : Option Number) :
    signAndSubmit (ε := ε) G wait timeout = sendAndLook G Client.patience wait timeout := by
  cases wait <;> rfl

end Draft

namespace Remote

variable {ν : Type} {R : Remote ν} {roles : Roles} {d : Draft Envelope (State ν)}

/-- The methods of a delivery with so many looks at the result. -/
def delivery (looks : Nat) : List Text :=
  reads ++ [submission] ++ List.replicate looks inquiry

theorem sendAndLook_sends (hroles : d.paper.roles = some roles) (looks : Nat) (wait : Bool) (timeout : Option Number) :
    ∃ calls n, R.Sends roles d (delivery n) calls (Draft.sendAndLook R.gateway looks wait timeout d) := by
  obtain ⟨calls, hsends⟩ := send_course hroles
  unfold Draft.sendAndLook
  rcases hsend : Draft.send R.gateway d with ⟨error | id, d'⟩
  · rw [hsend] at hsends
    rw [Action.bind_of_error hsend]
    exact ⟨calls, 0, hsends.talk, hsends.course.stop not_exists_ok, hsends.carried⟩
  · rw [hsend] at hsends
    rw [Action.bind_of_ok hsend]
    obtain ⟨calls', n, htalk', hcourse'⟩ := R.result_course wait timeout looks id d'.client
    have hsubmission : ∀ x ∈ calls ++ calls', x.method = submission → R.Carries roles d d'.paper x.request := by
      intro x hx hsame
      rcases List.mem_append.mp hx with hx | hx
      · exact hsends.carried x hx hsame
      · have hlook := List.eq_of_mem_replicate (hcourse'.method_mem hx)
        rw [hsame] at hlook
        exact absurd hlook (by decide)
    refine ⟨calls ++ calls', n, ?_⟩
    rcases hanswer : (if wait then
        Poll.waitForSeal (Client.world R.gateway.fetchResult) Number.render ⟨R.gateway.pollInterval, timeout⟩ id looks
          d'.client
      else R.gateway.fetchResult id d'.client) with ⟨error | r, client⟩
    · rw [hanswer] at htalk' hcourse'
      rw [Action.bind_of_error (Draft.call_of_error hanswer)]
      exact ⟨hsends.talk.append htalk', (hsends.course.append ⟨id, rfl⟩ hcourse').imp fun hok => hok, hsubmission⟩
    · rw [hanswer] at htalk' hcourse'
      rw [Action.bind_of_ok (Draft.call_of_ok hanswer)]
      have hcourse := hsends.course.append ⟨id, rfl⟩ hcourse'
      -- Whether the transaction failed is at most logged.
      cases r.failed <;> exact ⟨hsends.talk.append htalk', hcourse.imp fun _ => ⟨r, rfl⟩, hsubmission⟩

/-- A delivery that submits once at most: its calls are all that goes over the channel, at most one of them is a
submission, and what this carries is read by the node as the envelope. `Frame.sizeLimit` is the limit of messages in the
format of frames, protocol buffers. -/
def SubmitsOnce (R : Remote ν) (roles : Roles) (d : Draft Envelope (State ν))
    (result : Except Error TransactionResult × Draft Envelope (State ν)) : Prop :=
  ∃ calls n, R.Sends roles d (delivery n) calls result ∧
    result.2.client.backend.sent = d.client.backend.sent ++ calls.map R.event ∧
    (calls.map Exchange.method).count submission ≤ 1 ∧
    ((∀ v ∈ d.paper.arguments, v.Portable) → ∀ x ∈ calls, x.method = submission →
      x.request.length < Frame.sizeLimit → ∃ t arguments, LooseTransaction.received x.request = .ok t ∧
        List.Forall₂ Json.Reordered result.2.paper.arguments arguments ∧
        LooseEnvelope.regular? ⟨t, none⟩ = some { result.2.paper with arguments, roles := none } ∧
        ∀ suite, ∃ id, t.id suite = .ok id ∧ result.2.paper.id suite = .ok id)

theorem Sends.submitsOnce {calls : List Exchange} {n : Nat}
    {result : Except Error TransactionResult × Draft Envelope (State ν)} (h : R.Sends roles d (delivery n) calls result)
    (htyped : ∀ v ∈ d.paper.arguments, ∃ b, Argument.encode v = .ok b) : R.SubmitsOnce roles d result := by
  refine ⟨calls, n, h, h.talk.sent_eq, ?_, ?_⟩
  · have hone : (delivery n).count submission = 1 := by
      have hnone : (List.replicate n inquiry).count submission = 0 := by
        rw [List.count_eq_zero]
        intro hmem
        exact absurd (List.eq_of_mem_replicate hmem) (by decide)
      rw [delivery, List.count_append, hnone]
      decide
    exact hone ▸ h.course.order.sublist.count_le _
  · intro hportable x hx hsend hsize
    exact (h.carried x hx hsend).received htyped hportable hsize

/-- What is built is submitted once at most, whatever the node answers, the signers do, and however long it is waited
for; and it is submitted only when it has been read for it and all have signed. -/
theorem one_submission (R : Remote ν) {script : ScriptSource} {arguments : List Json}
    {gasLimit requiredAuthorizers : Option Int} {e : Envelope}
    (hbuild : Envelope.build roles script arguments gasLimit requiredAuthorizers = .ok e) (c : Client (State ν))
    (wait : Bool) (timeout : Option Number) :
    R.SubmitsOnce roles ⟨e, c⟩ (Draft.signAndSubmit R.gateway wait timeout ⟨e, c⟩) ∧
      ∀ looks, R.SubmitsOnce roles ⟨e, c⟩ (Draft.sendAndLook R.gateway looks wait timeout ⟨e, c⟩) := by
  obtain ⟨hroles, htyped⟩ := Envelope.of_build hbuild
  have hall : ∀ looks, R.SubmitsOnce roles ⟨e, c⟩ (Draft.sendAndLook R.gateway looks wait timeout ⟨e, c⟩) := by
    intro looks
    obtain ⟨calls, n, hsends⟩ := sendAndLook_sends (d := ⟨e, c⟩) hroles looks wait timeout
    exact hsends.submitsOnce htyped
  refine ⟨?_, hall⟩
  rw [Draft.signAndSubmit_eq]
  exact hall Client.patience

/-- A node that has the proposer's account, and seals every transaction at once. -/
def sealingNode : Node Unit where
  answer method _ _ :=
    let answer :=
      if method = ("GetAccountAtLatestBlock" : Text) then
        framed [("account", fieldBytes [("address", encode (.bytes [1])), ("keys", listBytes [fieldBytes
          [("index", encode (.int 0)), ("public_key", encode (.bytes [])), ("sig_algo", encode (.text "ECDSA_P256")),
            ("hash_algo", encode (.text "SHA3_256"))]])])]
      else if method = ("GetLatestBlock" : Text) then blockAnswer
      else if method = ("SendTransaction" : Text) then framed [("id", encode (.bytes [9]))]
      else framed [("status", encode (.int 4))]
    (.ok answer, ())
  unwritten := .unanswered
  unread := .unanswered

def sealingRemote : Remote Unit where
  node := sealingNode
  host := "localhost:1"
  secure := false
  apiKey := none
  timeout := .int 1
  pollInterval := .int 1

def posted : Envelope where
  script := [0x74, 0x78]
  arguments := []
  payer := [2]
  authorizers := [[3], [1], [3]]
  proposalKey := ⟨[1], 0, none⟩
  gasLimit := none
  referenceBlock := none
  payloadSignatures := .empty
  envelopeSignatures := .empty
  roles := some (Signable.overlappingRoles true)

theorem one_submission_sealed :
    Envelope.build (Signable.overlappingRoles true) (.bytes [0x74, 0x78]) [] none none = .ok posted ∧
    ∃ (calls : List Exchange) (r : TransactionResult) (d : Draft Envelope (State Unit)),
      Draft.signAndSubmit sealingRemote.gateway true none ⟨posted, .start ⟨(), []⟩⟩ = (.ok r, d) ∧
      r.status = .sealed ∧ calls.map Exchange.method = delivery 1 ∧ d.client.backend.sent = calls.map sealingRemote.event ∧
      ∃ x ∈ calls, x.method = submission ∧
        sealingRemote.Carries (Signable.overlappingRoles true) ⟨posted, .start ⟨(), []⟩⟩ d.paper x.request := by
  have hbuild : Envelope.build (Signable.overlappingRoles true) (.bytes [0x74, 0x78]) [] none none = .ok posted := rfl
  have hstatus : (Draft.signAndSubmit sealingRemote.gateway true none ⟨posted, .start ⟨(), []⟩⟩).1.toOption.map
      TransactionResult.status = some .sealed := by decide +kernel
  have hlength : (Draft.signAndSubmit sealingRemote.gateway true none
      ⟨posted, .start ⟨(), []⟩⟩).2.client.backend.sent.length = 4 := by decide +kernel
  obtain ⟨⟨calls, n, hsends, hsent, _⟩, _⟩ := one_submission sealingRemote hbuild (.start ⟨(), []⟩) true none
  generalize Draft.signAndSubmit sealingRemote.gateway true none ⟨posted, .start ⟨(), []⟩⟩ = result at *
  obtain ⟨r, hr, hsealed⟩ := Option.map_eq_some_iff.mp hstatus
  have hok := toOption_eq_some.mp hr
  obtain ⟨hmethods, _⟩ := hsends.course.complete ⟨r, hok⟩
  -- Four calls went out, so there was one look at the result.
  obtain rfl : n = 1 := by
    have hcalls := congrArg List.length hmethods
    rw [hsent] at hlength
    simp only [List.length_append, List.length_map, List.length_replicate, delivery, reads, List.length_cons,
      List.length_nil, Client.start] at hcalls hlength
    omega
  have hsubmitted : submission ∈ calls.map Exchange.method := by
    rw [hmethods]
    decide
  obtain ⟨x, hx, hsend⟩ := List.mem_map.mp hsubmitted
  exact ⟨hbuild, calls, r, result.2, Prod.ext hok rfl, hsealed, hmethods, hsent, x, hx, hsend, hsends.carried x hx hsend⟩

end Remote

end Signatory
