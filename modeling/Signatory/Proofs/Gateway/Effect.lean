import Signatory.Proofs.Gateway.Finality
import Signatory.Proofs.Gateway.Pipeline

/-! What an accepted submission changes. On top of what the run did to the accounts, one sequence number is raised, and
each other part of the ledger but the counter of accounts gains one entry at its end. -/

namespace Signatory
set_option autoImplicit false

variable {μ : Type}

/-- The same accounts, but for the sequence number of the first key with an index, which is raised by one. -/
structure Accounts.Raised (before after : Accounts) (address : Bytes) (index : Int) : Prop where
  keys : after.keys = before.keys
  others : ∀ other, other ≠ address → after.find? other = before.find? other
  raised : ∃ account front key back, before.find? address = some account ∧ account.keys = front ++ key :: back ∧
    key.index = index ∧ (∀ k ∈ front, k.index ≠ index) ∧
    after.find? address =
      some { account with keys := front ++ { key with sequenceNumber := key.sequenceNumber + 1 } :: back }

namespace Engine

theorem bumpKeys_append {index : Int} {front : List StoredKey} (hfront : ∀ k ∈ front, k.index ≠ index) {key : StoredKey}
    (hkey : key.index = index) (back : List StoredKey) : bumpKeys index (front ++ key :: back) =
      front ++ { key with sequenceNumber := key.sequenceNumber + 1 } :: back := by
  induction front with
  | nil => rw [List.nil_append, bumpKeys, if_pos hkey, List.nil_append]
  | cons k front ih =>
    rw [List.forall_mem_cons] at hfront
    rw [List.cons_append, bumpKeys, if_neg hfront.1, ih hfront.2, List.cons_append]

theorem raised_bump {accounts accounts' : Accounts} {address : Bytes} {index : Int}
    (h : bump accounts address index = .ok accounts') : accounts.Raised accounts' address index := by
  obtain ⟨account, key, haccount, hkey, haccounts⟩ := bump_eq_ok h
  obtain ⟨hindex, front, back, hkeys, hfront⟩ := List.find?_eq_some_iff_append.mp hkey
  have hindex : key.index = index := of_decide_eq_true hindex
  have hfront : ∀ k ∈ front, k.index ≠ index := by simpa using hfront
  refine ⟨keys_bump h, ?_, account, front, key, back, haccount, hkeys, hindex, hfront, ?_⟩
  · intro other hother
    rw [haccounts, OrderedMap.find?_insert, if_neg hother.symm]
  · rw [haccounts, OrderedMap.find?_insert_self, hkeys, bumpKeys_append hfront hindex]

variable (E : Engine μ)

/-- A submission, of whatever form, of what passes validation. -/
inductive Submitted (s : State μ) : Admission → Except Error Bytes × State μ → Prop where
  | regular {t : Transaction} {id : Bytes} : t.id E.suite = .ok id → E.validate s.ledger t id = .ok () →
      Submitted s ⟨t.proposalKey.address, t.loosen, id⟩ (E.submit s t)
  | loose {t : LooseTransaction} {id proposer : Bytes} : t.id E.suite = .ok id →
      E.validateLoose s.ledger t id = .ok proposer → Submitted s ⟨proposer, t, id⟩ (E.submitLoose s t)

/-- What a ledger has after an accepted submission, whose run left these accounts, emitted these values, and is sealed
under this message. -/
structure Effect (l : Ledger) (x : Admission) (left : Accounts) (emitted : List Json) (message : Text) (block : StoredBlock)
    (events : List StoredEvent) (l' : Ledger) : Prop where
  accounts : left.Raised l'.accounts x.proposer x.transaction.keyIndex
  parent : l.blocks.getLast?.map StoredBlock.id = some block.parent
  height : block.height = l.blocks.length
  contents : block.collections = [E.collectionId x.id]
  count : events.length = emitted.length
  each : ∀ (i : Nat) v, emitted[i]? = some v → ∃ type, v.field? "type" = some type ∧
    events[i]? = some ⟨type, x.id, 0, i, (v.field? "payload").getD (.object [])⟩
  blocks : l'.blocks = l.blocks ++ [block]
  collections : l'.collections.entries = l.collections.entries ++ [(E.collectionId x.id, [x.id])]
  transactions : l'.transactions.entries = l.transactions.entries ++ [(x.id, x.transaction)]
  results : l'.results.entries = l.results.entries ++ [(x.id, ⟨x.id, block.id, message, events⟩)]
  events : l'.events.entries = l.events.entries ++ [(block.id, events)]
  accountCounter : l'.accountCounter = l.accountCounter

variable {E}

theorem Submitted.attempt {s : State μ} {x : Admission} {result : Except Error Bytes × State μ}
    (h : E.Submitted s x result) : x.Admitted E.suite s.ledger ∧ result = E.attempt s (.ok x) := by
  cases h with
  | @regular t id hid hvalid =>
    have haccept : E.accept s.ledger t = .ok ⟨t.proposalKey.address, t.loosen, id⟩ := by
      rw [accept, hid]
      simp only [bind, Except.bind, hvalid, pure, Except.pure]
    exact ⟨accept_admitted haccept, by rw [submit_eq_attempt, haccept]⟩
  | @loose t id proposer hid hvalid =>
    have haccept : E.acceptLoose s.ledger t = .ok ⟨proposer, t, id⟩ := by
      rw [acceptLoose, hid]
      simp only [bind, Except.bind, hvalid, pure, Except.pure]
    exact ⟨acceptLoose_admitted haccept, by rw [submitLoose_eq_attempt, haccept]⟩

theorem Submitted.of_accept {s : State μ} {t : Transaction} {x : Admission} (h : E.accept s.ledger t = .ok x) :
    ∃ id, x = ⟨t.proposalKey.address, t.loosen, id⟩ ∧ E.Submitted s x (E.submit s t) := by
  simp only [accept, Outcome.bind_eq_ok, Outcome.pure_eq_ok] at h
  obtain ⟨id, hid, _, hvalid, rfl⟩ := h
  exact ⟨id, rfl, .regular hid hvalid⟩

/-- Sealing adds its entries under new names. -/
theorem effect_sealed {l : Ledger} {x : Admission} (hanchored : E.Anchored l) (hblocks : l.blocks ≠ [])
    (hfresh : x.id ∉ l.transactions.keys) {left accounts : Accounts}
    (hbump : bump left x.proposer x.transaction.keyIndex = .ok accounts) {time : Moment} {emitted : List Json}
    {events : List StoredEvent} (hevents : StoredEvent.ofEmitted x.id 0 emitted = .ok events) {message : Text}
    (hfree : E.suite.CollisionFree (E.sealed l x accounts time events message).Digests) :
    E.Effect l x left emitted message (E.nextBlock l.blocks [E.collectionId x.id] time) events
      (E.sealed l x accounts time events message) := by
  obtain ⟨hblock, hcollection⟩ := hanchored.fresh hfresh hfree
  obtain ⟨hcount, heach⟩ := StoredEvent.ofEmitted_each hevents
  simp only [Nat.zero_add] at heach
  constructor
  case accounts => exact raised_bump hbump
  case parent =>
    obtain ⟨last, hlast⟩ := Option.ne_none_iff_exists'.mp fun hnone => hblocks (List.getLast?_eq_none_iff.mp hnone)
    rw [nextBlock, hlast]
    rfl
  case count => exact hcount
  case each => exact heach
  case collections => exact OrderedMap.entries_insert_of_notMem hcollection
  case transactions => exact OrderedMap.entries_insert_of_notMem hfresh
  case results => exact OrderedMap.entries_insert_of_notMem fun hold => hfresh (hanchored.results _ hold)
  case events => exact OrderedMap.entries_insert_of_notMem fun hold => hblock (hanchored.events _ hold)
  all_goals rfl

theorem Sealing.effect {s s' : State μ} {l : Ledger} {x : Admission} {left : Accounts} {emitted : List Json}
    {message : Text} {answer : Except Error Bytes} (h : Sealing E s x emitted message answer s')
    (hs : s.ledger = { l with accounts := left }) {time : Moment} (htime : E.clock s.readings = .ok time)
    (hkept : ∃ n, left.sequence? x.proposer x.transaction.keyIndex = some n) (hemitted : ∀ v ∈ emitted, Emitted v)
    (hanchored : E.Anchored l) (hblocks : l.blocks ≠ []) (hfresh : x.id ∉ l.transactions.keys)
    (hfree : E.suite.CollisionFree s'.ledger.Digests) :
    answer = .ok x.id ∧ ∃ block events, block.timestamp = time ∧
      E.Effect l x left emitted message block events s'.ledger := by
  have hkey : ∃ n, s.ledger.accounts.sequence? x.proposer x.transaction.keyIndex = some n := by rwa [hs]
  obtain ⟨accounts, hbump, ⟨error, hfails, _⟩ | ⟨time', events, htime', hevents, hanswer, hledger⟩⟩ :=
    h.of_emitted hkey hemitted
  · cases htime.symm.trans hfails
  · obtain rfl := Except.ok.inj (htime.symm.trans htime')
    rw [hs] at hbump hledger
    rw [hledger] at hfree ⊢
    exact ⟨hanswer, _, events, rfl, effect_sealed hanchored hblocks hfresh hbump hevents hfree⟩

end Engine

namespace Embedded

variable {G : Embedded μ} {s : State μ}

/-- An accepted submission is answered with the identifier of its transaction, however its run ended short of a crash.
The accounts are then those that the run left, or those before it where the script failed, with the sequence number of
the proposal key raised by one; the transaction, its result and its collection, its events and a block that names the
one before are added, and all else is as it was. -/
theorem submission_effect (hs : G.Starts s) (calls : List Call) {x : Engine.Admission} {answer : Except Error Bytes}
    {after : Engine.State μ} (hsubmitted : G.engine.Submitted (G.run s calls).engine x (answer, after)) {time : Moment}
    (htime : G.engine.clock (G.run s calls).engine.readings = .ok time) {outcome : Outcome (List Json)}
    {left : Accounts} {memory : μ}
    (hexecute : G.engine.runtime.execute x.transaction (G.run s calls).ledger (G.run s calls).engine.memory =
      (outcome, left, memory))
    (hfree : G.engine.suite.CollisionFree after.ledger.Digests) :
    (∀ emitted, outcome = .done emitted →
      (∃ account key, left.find? x.proposer = some account ∧ account.key? x.transaction.keyIndex = some key) →
      (∀ v ∈ emitted, Emitted v) →
      answer = .ok x.id ∧ ∃ block events, block.timestamp = time ∧
        G.engine.Effect (G.run s calls).ledger x left emitted [] block events after.ledger) ∧
    ∀ reason, outcome = .failed reason →
      answer = .ok x.id ∧ ∃ block, block.timestamp = time ∧
        G.engine.Effect (G.run s calls).ledger x (G.run s calls).ledger.accounts [] reason block [] after.ledger := by
  obtain ⟨hadmitted, hattempt⟩ := hsubmitted.attempt
  have hanchored := anchored_run hs calls
  obtain ⟨hblocks, _⟩ := named_run hs (State.Keeps.live (s := G.run s calls))
  have hrunning := Engine.attempt_running G.engine (G.run s calls).engine x
  rw [← hattempt] at hrunning
  constructor
  · rintro emitted rfl ⟨account, key, haccount, hkey⟩ hemitted
    cases hrunning with
    | crashed hcrashed => cases hexecute.symm.trans hcrashed
    | failed hfailed _ => cases hexecute.symm.trans hfailed
    | done hdone hsealing =>
      cases hexecute.symm.trans hdone
      exact hsealing.effect rfl htime ⟨_, Engine.sequence?_of_key? haccount hkey⟩ hemitted hanchored hblocks
        hadmitted.fits.fresh hfree
  · rintro reason rfl
    cases hrunning with
    | crashed hcrashed => cases hexecute.symm.trans hcrashed
    | done hdone _ => cases hexecute.symm.trans hdone
    | failed hfailed hsealing =>
      cases hexecute.symm.trans hfailed
      obtain ⟨n, hn, _⟩ := hadmitted.fits.sequence
      obtain ⟨hanswer, block, events, hstamp, heffect⟩ := hsealing.effect rfl htime ⟨n, hn⟩ (fun _ h => nomatch h)
        hanchored hblocks hadmitted.fits.fresh hfree
      obtain rfl := List.length_eq_zero_iff.mp heffect.count
      exact ⟨hanswer, block, hstamp, heffect⟩

/-- Every key of the service account revoked, and some of its balance gone. -/
def spent (accounts : Accounts) : Accounts :=
  accounts.modify Engine.serviceAddress fun a =>
    { a with balance := a.balance - 7, keys := a.keys.map ({ · with revoked := true }) }

def spentEvents : List Json :=
  [.object [("type", .text "A.1.C.Spent"), ("payload", .object [("amount", .int 7)])],
    .object [("type", .text "A.1.C.Done")]]

theorem spentEvents_emitted : ∀ v ∈ spentEvents, Emitted v := by
  intro v hv
  rcases List.mem_pair.mp hv with rfl | rfl
  · exact ⟨_, _, rfl, rfl⟩
  · exact ⟨_, _, rfl, rfl⟩

/-- Spends, or takes every account away and fails, as it remembers. -/
def spending : Runtime Bool where
  execute _ l able :=
    match able with
    | true => (.done spentEvents, spent l.accounts, able)
    | false => (.failed "no funds", .empty, able)
  evaluate _ _ l able := (.done Runtime.void, l, able)

/-- The first transaction after a new account, once with a run that ends well and once with one that fails. -/
theorem submission_effect_spending :
    let G := trusting spending
    let calls : List Call := [⟨.start (), .createAccount []⟩]
    let able := G.run (trustingStart spending true) calls
    let unable := G.run (trustingStart spending false) calls
    (∃ x after block events, G.engine.Submitted able.engine x (.ok x.id, after) ∧
      G.engine.Effect able.ledger x (spent able.ledger.accounts) spentEvents [] block events after.ledger) ∧
    ∃ x after block, G.engine.Submitted unable.engine x (.ok x.id, after) ∧
      G.engine.Effect unable.ledger x unable.ledger.accounts [] "no funds" block [] after.ledger := by
  intro G calls able unable
  have hfree (inputs : Bytes → Prop) : G.engine.suite.CollisionFree inputs := fun _ _ _ _ h => h
  have hstarts (memory : Bool) : G.Starts (trustingStart spending memory) := ⟨nobodysKey, memory, rfl, rfl⟩
  have haccepted (memory : Bool) : (G.engine.accept (G.run (trustingStart spending memory) calls).ledger
      (serviceEnvelope spending 0).toTransaction).toOption.isSome = true := by
    revert memory
    decide +kernel
  have hsubmitted (memory : Bool) : ∃ id answer after, G.engine.Submitted
      (G.run (trustingStart spending memory) calls).engine
      ⟨Engine.serviceAddress, (serviceEnvelope spending 0).toTransaction.loosen, id⟩ (answer, after) := by
    obtain ⟨x, hx⟩ := Option.isSome_iff_exists.mp (haccepted memory)
    obtain ⟨id, rfl, hsubmitted⟩ := Engine.Submitted.of_accept (Outcome.toOption_eq_some.mp hx)
    exact ⟨id, _, _, hsubmitted⟩
  constructor
  · obtain ⟨id, answer, after, hsubmitted⟩ := hsubmitted true
    obtain ⟨hdone, _⟩ := submission_effect (hstarts true) calls hsubmitted rfl rfl (hfree _)
    have hkept : ∃ account key, (spent able.ledger.accounts).find? Engine.serviceAddress = some account ∧
        account.key? 0 = some key := ⟨_, _, rfl, rfl⟩
    obtain ⟨rfl, block, events, _, heffect⟩ := hdone _ rfl hkept spentEvents_emitted
    exact ⟨_, after, block, events, hsubmitted, heffect⟩
  · obtain ⟨id, answer, after, hsubmitted⟩ := hsubmitted false
    obtain ⟨_, hfailed⟩ := submission_effect (hstarts false) calls hsubmitted rfl rfl (hfree _)
    obtain ⟨rfl, block, _, heffect⟩ := hfailed _ rfl
    exact ⟨_, after, block, hsubmitted, heffect⟩

end Embedded

end Signatory
