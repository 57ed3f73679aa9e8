import Signatory.Proofs.Gateway.Errors
import Signatory.Proofs.Poll
import Signatory.Proofs.Transaction.Completion

/-! What can be asked of any gateway, and the numbers that asking takes: a wait reckons with seconds that have doubles next
to them, and the text of a refusal shows integers, which must not be too long for that. -/

namespace Signatory
set_option autoImplicit false

namespace Number

/-- There is a double next to a number. -/
def Near (n : Number) : Prop := n.toBinary64?.isSome = true

theorem add?_of_near {n : Number} (h : n.Near) (x : Binary64) : ∃ y, (float x).add? n = some (.float y) := by
  obtain ⟨y, hy⟩ := Option.isSome_iff_exists.mp h
  have hsum : (float x).add? n = n.toBinary64? >>= fun y => some (.float (x.add y)) := by
    cases n <;> rfl
  exact ⟨x.add y, by rw [hsum, hy]; rfl⟩

theorem sub?_of_near {n : Number} (h : n.Near) (x : Binary64) : ∃ y, n.sub? (float x) = some (.float y) := by
  obtain ⟨y, hy⟩ := Option.isSome_iff_exists.mp h
  have hdifference : n.sub? (float x) = n.toBinary64? >>= fun y => some (.float (y.sub x)) := by
    cases n <;> rfl
  exact ⟨y.sub x, by rw [hdifference, hy]; rfl⟩

end Number

namespace Client

variable {β : Type}

/-- The clock shows doubles, and the signal comes at one if it comes at a time. -/
structure InDoubles (c : Client β) : Prop where
  now : ∃ x, c.timeline.now = .float x
  signal : ∀ time, c.cancel = some (.at time) → ∃ x, time = .float x

variable {c : Client β}

theorem InDoubles.ahead (h : c.InDoubles) {length : Number} (hlength : length.Near) :
    ∃ x, computed (c.timeline.now.add? length) = .ok (.float x) := by
  obtain ⟨now, hnow⟩ := h.now
  obtain ⟨x, hx⟩ := Number.add?_of_near hlength now
  exact ⟨x, by rw [hnow, hx]; rfl⟩

theorem InDoubles.remaining (h : c.InDoubles) {time : Number} (htime : time.Near) :
    ∃ x, computed (time.sub? c.timeline.now) = .ok (.float x) := by
  obtain ⟨now, hnow⟩ := h.now
  obtain ⟨x, hx⟩ := Number.sub?_of_near htime now
  exact ⟨x, by rw [hnow, hx]; rfl⟩

theorem InDoubles.isCancelled (h : c.InDoubles) : (Client.isCancelled c).2.InDoubles := by
  unfold Client.isCancelled
  split
  · exact h
  · exact h
  · exact ⟨h.now, nofun⟩
  · exact h

theorem InDoubles.pause (h : c.InDoubles) {length : Number} (hlength : length.Near) :
    ∃ c', Client.pause length c = (.ok (), c') ∧ c'.InDoubles := by
  obtain ⟨now, hnow⟩ := h.now
  obtain ⟨_, hdouble⟩ := Option.isSome_iff_exists.mp hlength
  obtain ⟨full, hfull⟩ := Number.add?_of_near hlength now
  unfold Client.pause
  simp only [hdouble, hnow, hfull]
  refine ⟨_, rfl, ?_, h.signal⟩
  unfold pauseEnd
  split
  · rename_i time hcancel
    split
    · exact h.signal time hcancel
    · exact ⟨_, rfl⟩
  · exact ⟨_, rfl⟩

/-- A wait reckons well when its looks leave clock and signal alone; then only looks and the ways of giving up end it. -/
theorem world_leads {fetch : Ticket → Action (Client β) TransactionResult} {ticket : Ticket} {P : β → Prop}
    {Q : Except Error TransactionResult → β → Prop}
    (hfetch : ∀ c, P c.backend → Q (fetch ticket c).1 (fetch ticket c).2.backend ∧
      ∀ r, (fetch ticket c).1 = .ok r → P (fetch ticket c).2.backend)
    (hclock : ∀ c, c.InDoubles → (fetch ticket c).2.InDoubles)
    (hstop : ∀ {e b}, Poll.GivenUp ticket e → P b → Q (.error e) b) :
    (world fetch).Leads ticket (fun c => c.InDoubles ∧ P c.backend) Number.Near fun answer c => Q answer c.backend where
  isCancelled {c _ _} h hc := by
    have hdoubles := hc.1.isCancelled
    have hbackend := c.isCancelled_backend
    have h : Client.isCancelled c = _ := h
    rw [h] at hdoubles hbackend
    exact ⟨hdoubles, hbackend ▸ hc.2⟩
  fetch {c _ _} h hc := by
    have hlook := hfetch c hc.2
    have hdoubles := hclock c hc.1
    have h : fetch ticket c = _ := h
    rw [h] at hlook hdoubles
    exact ⟨hlook.1, fun r hr => ⟨hdoubles, hlook.2 r hr⟩⟩
  note _ _ hc := ⟨⟨hc.1.now, hc.1.signal⟩, hc.2⟩
  ahead {length c _} h hc hlength := by
    obtain ⟨x, hx⟩ := hc.1.ahead hlength
    obtain rfl := h.symm.trans hx
    refine ⟨nofun, ?_⟩
    rintro _ ⟨⟩
    exact rfl
  remaining {time c _} h hc htime := by
    obtain ⟨x, hx⟩ := hc.1.remaining htime
    obtain rfl := h.symm.trans hx
    refine ⟨nofun, ?_⟩
    rintro _ ⟨⟩
    exact rfl
  pause {length c _ _} h hc hlength := by
    obtain ⟨c', hpause, hdoubles⟩ := hc.1.pause hlength
    have hbackend := pause_backend length c
    have h : Client.pause length c = _ := h
    rw [hpause] at h hbackend
    obtain ⟨rfl, rfl⟩ := Prod.mk.inj h
    exact ⟨nofun, fun _ => ⟨hdoubles, hbackend ▸ hc.2⟩⟩
  stop h hc := hstop h hc.2

end Client

namespace Gateway

/-- What can be asked of every gateway. -/
inductive Operation : Type → Type where
  | ping : Operation Unit
  | account (address : Bytes) : Operation AccountRecord
  | submit (e : Envelope) : Operation Ticket
  | transaction (id : Bytes) : Operation LooseTransaction
  | result (ticket : Ticket) (wait : Bool) (timeout : Option Number) : Operation TransactionResult
  | script (script : Bytes) (arguments : List Json) : Operation Json
  | latestBlock : Operation Block
  | blockNamed (id : Bytes) : Operation Block
  | blockAt (height : Int) : Operation Block
  | events (type : Text) (first last : Int) : Operation (List BlockEvents)
  | collection (id : Bytes) : Operation Collection

variable {β : Type}

def perform (g : Gateway β) {α : Type} : Operation α → Action (Client β) α
  | .ping => g.ping
  | .account address => g.account address
  | .submit e => g.submit e
  | .transaction id => g.transaction id
  | .result ticket wait timeout => g.result ticket wait timeout
  | .script code arguments => g.script code arguments
  | .latestBlock => g.latestBlock
  | .blockNamed id => g.blockNamed id
  | .blockAt height => g.blockAt height
  | .events type first last => g.events type first last
  | .collection id => g.collection id

namespace Operation

/-- Where an operation waits, it reckons with seconds next to doubles. -/
def Timed (interval : Number) (c : Client β) {α : Type} : Operation α → Prop
  | .result _ true timeout => c.InDoubles ∧ interval.Near ∧ ∀ length ∈ timeout, length.Near
  | _ => True

/-- The integers of an envelope that the text of a refusal may show. -/
def shownOf (e : Envelope) : List Int :=
  e.proposalKey.keyIndex :: e.proposalKey.sequenceNumber.toList ++ e.gasLimit.toList ++
    (e.payloadSignatures.keys ++ e.envelopeSignatures.keys).map Prod.snd ++
    (e.roles.toList.flatMap Roles.accounts).flatMap fun a => a.keys.map AccountKey.index

/-- The integers that the text of a refusal or a line of the log may show. -/
def shown {α : Type} : Operation α → List Int
  | .submit e => shownOf e
  | .blockAt height => [height]
  | .events _ first last => [first, last]
  | _ => []

/-- An operation with numbers of a common size: seconds next to doubles, and integers that can be written. -/
structure Ordinary (interval : Number) (c : Client β) {α : Type} (op : Operation α) : Prop where
  timed : op.Timed interval c
  writable : ∀ i ∈ op.shown, Text.Numeral.isWritable i = true

end Operation

end Gateway

end Signatory
