import Signatory.Proofs.Gateway.Drafting
import Signatory.Proofs.Gateway.Replay
import Signatory.Proofs.Ledger.Freshness
import Signatory.Proofs.Ledger.Growth
import Signatory.Proofs.Ledger.Policy

/-! From roles to a sealed block: what is built for accounts whose keys stand on the ledger is prepared, signed, and
accepted by it. -/

namespace Signatory
set_option autoImplicit false
open Outcome

/-- The default key of an account stands on the ledger, is not revoked, and verifies what its signer signs. -/
def Account.Backed (suite : CryptoSuite) (l : Ledger) (a : Account) : Prop :=
  ∃ key record, a.defaultKey = .ok key ∧ l.key? a.address key.index = some record ∧ record.revoked = false ∧
    record.publicKey = key.signer.publicKey ∧ record.algorithm = key.algorithm ∧ record.hash = key.hash ∧
    ∀ message, ∃ signature, key.signer.sign message = .ok signature ∧
      verifySignature suite key.signer.publicKey key.algorithm key.hash message signature = true

/-- Executions end, be it with a failure of the script. -/
def Runtime.Steady {μ : Type} (R : Runtime μ) : Prop :=
  ∀ t l m reason accounts m', R.execute t l m ≠ (.crashed reason, accounts, m')

theorem Account.Backed.willing {suite : CryptoSuite} {l : Ledger} {a : Account} (h : a.Backed suite l) : a.Willing := by
  obtain ⟨key, _, hkey, _, _, _, _, _, hsigns⟩ := h
  refine ⟨key, hkey, fun message => ?_⟩
  obtain ⟨signature, hsignature, _⟩ := hsigns message
  exact ⟨signature, hsignature⟩

theorem Account.Backed.verifies {μ : Type} {E : Engine μ} {l : Ledger} {a : Account} (h : a.Backed E.suite l)
    {address : Bytes} {index : Int} (hplace : a.slot? = some (address, index)) {message signature : Bytes}
    (hsigns : a.Signs message signature) : E.Verifies l message address index signature := by
  obtain ⟨key, record, hkey, hrecord, hrevoked, hpublic, halgorithm, hhash, hall⟩ := h
  obtain ⟨other, hother, hsignature⟩ := hsigns
  obtain rfl := Except.ok.inj (hkey.symm.trans hother)
  rw [Account.slot?_of_defaultKey hkey, Option.some.injEq, Prod.mk.injEq] at hplace
  obtain ⟨rfl, rfl⟩ := hplace
  obtain ⟨account, haccount, hfind⟩ := Option.bind_eq_some_iff.mp hrecord
  obtain ⟨made, hmade, hverified⟩ := hall message
  obtain rfl := Except.ok.inj (hsignature.symm.trans hmade)
  exact ⟨account, record, haccount, hfind, hrevoked, by rw [hpublic, halgorithm, hhash, hverified]⟩

namespace Draft

variable {μ : Type} {G : Embedded μ}

/-- Preparing reads the ledger and changes the envelope only. -/
theorem prepare_eq_ok {e : Envelope} {c : Client (Embedded.State μ)} {account : StoredAccount} {key : StoredKey}
    {b : StoredBlock} (haccount : c.backend.ledger.accounts.find? e.proposalKey.address = some account)
    (hkey : account.key? e.proposalKey.keyIndex = some key) (hrevoked : key.revoked = false)
    (hblock : c.backend.ledger.blocks.getLast? = some b) (gas : Int) :
    prepare G.gateway gas ⟨e, c⟩ = (.ok (), ⟨Sendable.prepared b.id gas key.sequenceNumber e, c⟩) := by
  have haccount : (Sendable.proposer G.gateway e) c = (.ok account.toRecord, c) := by
    have hanswer : Engine.reject (c.backend.ledger.account e.proposalKey.address) = .ok account :=
      Engine.reject_eq_ok.mpr (Engine.account_eq_ok.mpr haccount)
    have hquery : (Sendable.proposer G.gateway e) c =
        (StoredAccount.toRecord <$> Engine.reject (c.backend.ledger.account e.proposalKey.address), c) := rfl
    rw [hquery, hanswer]
    rfl
  have hblock : G.gateway.latestBlock c = (.ok b.toBlock, c) := by
    have hquery : G.gateway.latestBlock c =
        (StoredBlock.toBlock <$> c.backend.ledger.blocks.getLast?.elim (.error .missingEntry) .ok, c) := rfl
    rw [hquery, hblock]
    rfl
  have hkey : account.toRecord.key? e.proposalKey.keyIndex = some key.toRecord := by
    rw [account.key?_toRecord, hkey]
    rfl
  have hlearns : Learns G.gateway (⟨e, c⟩ : Draft Envelope (Embedded.State μ)) key.toRecord b.toBlock c :=
    ⟨account.toRecord, c, haccount, hkey, hrevoked, hblock⟩
  exact prepare_of_learns hlearns gas

theorem send_eq_submit {e prepared signed : Envelope} {c : Client (Embedded.State μ)}
    (hprepare : prepare G.gateway Envelope.defaultGasLimit ⟨e, c⟩ = (.ok (), ⟨prepared, c⟩))
    (hsign : Signable.sign prepared none = (.ok (), signed)) :
    send G.gateway ⟨e, c⟩ = ((G.submit signed c).1.map .id, ⟨signed, (G.submit signed c).2⟩) := by
  have hsign : Draft.sign none (⟨prepared, c⟩ : Draft Envelope (Embedded.State μ)) = (.ok (), ⟨signed, c⟩) := by
    unfold Draft.sign
    simp only [hsign]
    rfl
  have hrun : run G.gateway Envelope.defaultGasLimit (⟨e, c⟩ : Draft Envelope (Embedded.State μ)) =
      (.ok (), ⟨signed, c⟩) := by
    unfold run
    rw [Action.bind_of_ok hprepare, hsign]
  have hsubmit : submit G.gateway ⟨signed, c⟩ =
      ((G.gateway.submit signed c).1, ⟨signed, (G.gateway.submit signed c).2⟩) := rfl
  unfold send
  rw [Action.bind_of_ok hrun, hsubmit, G.gateway_submit_eq]

end Draft

/-- What is admitted to a steady runtime is sealed, when the clock answers, and raises the sequence number that it bears. -/
theorem Engine.attempt_seals {μ : Type} {E : Engine μ} (hR : E.runtime.WellBehaved) (hsteady : E.runtime.Steady)
    {s : State μ} {x : Admission} (hfits : x.Fits s.ledger) {time : Moment} (hclock : E.clock s.readings = .ok time) :
    (E.attempt s (.ok x)).1 = .ok x.id ∧
    (∃ b, (E.attempt s (.ok x)).2.ledger.blocks = s.ledger.blocks ++ [b]) ∧
    (E.attempt s (.ok x)).2.ledger.accounts.sequence? x.proposer x.transaction.keyIndex =
      (s.ledger.accounts.sequence? x.proposer x.transaction.keyIndex).map (· + 1) := by
  have hall : ∀ y, (.ok x : Except Error Admission) = .ok y → y.Fits s.ledger := by
    intro y hy
    exact Except.ok.inj hy ▸ hfits
  have hattempting := attempt_attempting hR s hall
  generalize (E.attempt s (.ok x)).1 = answer at hattempting ⊢
  generalize (E.attempt s (.ok x)).2.ledger = after at hattempting ⊢
  cases hattempting with
  | refused hrefused => cases hrefused
  | crashed _ hexecute => exact absurd hexecute (hsteady _ _ _ _ _ _)
  | untimed _ _ _ _ hfails =>
    rw [hclock] at hfails
    cases hfails
  | @sealed y left accounts _ _ _ message hx htouched hkept hbump _ _ =>
    obtain rfl := Except.ok.inj hx
    refine ⟨rfl, ⟨_, rfl⟩, ?_⟩
    have hraised := sequence?_bump hbump x.proposer x.transaction.keyIndex
    rw [if_pos ⟨rfl, rfl⟩, htouched.sequence?_eq hkept] at hraised
    exact hraised

namespace Embedded

variable {μ : Type} {G : Embedded μ}

theorem Starts.named {s : State μ} (h : G.Starts s) {l : Ledger} (hl : s.Keeps l) :
    l.blocks ≠ [] ∧ l.Named G.engine.suite := by
  obtain ⟨service, memory, hstart, rfl⟩ := h.opened hl
  obtain ⟨time, hledger⟩ := Engine.start_eq_ok hstart
  rw [hledger]
  refine ⟨List.cons_ne_nil _ _, ?_⟩
  intro id t hfind
  cases hfind

theorem named_attempt {s : Engine.State μ} {admission : Except Error Engine.Admission}
    (hadmitted : ∀ x, admission = .ok x → x.Admitted G.engine.suite s.ledger)
    (h : s.ledger.blocks ≠ [] ∧ s.ledger.Named G.engine.suite) :
    (G.engine.attempt s admission).2.ledger.blocks ≠ [] ∧
      (G.engine.attempt s admission).2.ledger.Named G.engine.suite := by
  cases admission with
  | error _ => exact h
  | ok x =>
    have hgrowing := Engine.attempt_growing (E := G.engine) s x
    generalize (G.engine.attempt s (.ok x)).2.ledger = after at hgrowing ⊢
    cases hgrowing with
    | touched _ => exact h
    | torn _ _ => exact ⟨List.append_ne_nil_of_left_ne_nil h.1 _, h.2⟩
    | sealed _ _ _ _ =>
      refine ⟨List.append_ne_nil_of_left_ne_nil h.1 _, ?_⟩
      intro id t hfind
      have hfind : (s.ledger.transactions.insert x.id x.transaction).find? id = some t := hfind
      rw [OrderedMap.find?_insert] at hfind
      split at hfind
      · rename_i hid
        obtain rfl := Option.some.inj hfind
        exact hid ▸ (hadmitted x rfl).named
      · exact h.2 id t hfind

/-- A ledger of a run has a block, and names its transactions by their identifiers. -/
theorem named_run {s : State μ} (hs : G.Starts s) {calls : List Call} {l : Ledger} (hl : (G.run s calls).Keeps l) :
    l.blocks ≠ [] ∧ l.Named G.engine.suite :=
  G.run_keeps (I := fun _ l => l.blocks ≠ [] ∧ l.Named G.engine.suite) (fun _ _ h => h) (fun _ _ _ h => h)
    (fun _ _ _ hadmitted h => named_attempt hadmitted h) (n := 0) (fun _ hl => hs.named hl) calls l hl

/-- An envelope that all of its roles have signed is admitted, when it refers to the ledger as it is. -/
theorem admission_of_signed {l : Ledger} (horderly : G.engine.Orderly l) (hnamed : l.Named G.engine.suite)
    {e : Envelope} {roles : Roles} {proposer payer : Account} (hstaged : e.Staged roles proposer payer)
    (hready : e.Ready) (hgas : ∃ gas, e.gasLimit = some gas ∧ gas ≤ G.engine.maxGasLimit)
    (hreference : ∃ b ∈ l.blocks, e.referenceBlock = some b.id) {account : StoredAccount} {key : StoredKey}
    (haccount : l.accounts.find? e.proposalKey.address = some account)
    (hkey : account.key? e.proposalKey.keyIndex = some key)
    (hsequence : e.proposalKey.sequenceNumber = some key.sequenceNumber)
    (hbacked : ∀ a ∈ roles.accounts, a.Backed G.engine.suite l) {m : SignatureKind → SignatureMap}
    {payload envelope : Bytes} (hsigned : Signable.Signed e roles proposer payer m payload envelope)
    (hfree : G.engine.suite.CollisionFree fun p =>
      l.DigestsTransaction p ∨ (Signable.replace e m).toTransaction.idPreimage = .ok p) :
    ∃ id, (Signable.replace e m).toTransaction.id G.engine.suite = .ok id ∧
      G.admission (Signable.replace e m) l =
        .ok ⟨e.proposalKey.address, (Signable.replace e m).toTransaction.loosen, id⟩ := by
  have hkeys : ∀ a ∈ roles.accounts, ∃ key, a.defaultKey = .ok key := by
    intro a ha
    obtain ⟨key, hkey, _⟩ := (hbacked a ha).willing
    exact ⟨key, hkey⟩
  have hcomplete := Envelope.checkComplete_of_signed hstaged.attached hready.prepared hsigned hkeys
  have hfull := Envelope.fullySigned_of_signed hstaged hsigned hkeys
  have hpayload : (Signable.replace e m).toTransaction.payloadMessage = .ok payload := hsigned.payloadMessage
  have henvelope : (Signable.replace e m).toTransaction.envelopeMessage = .ok envelope := hsigned.envelopeMessage
  have hready : (Signable.replace e m).toTransaction.Ready := ⟨hready.prepared, hready.arguments⟩
  obtain ⟨v, _, hitem⟩ := hready.exists_payloadItem
  obtain ⟨id, hid⟩ : ∃ id, (Signable.replace e m).toTransaction.id G.engine.suite = .ok id :=
    ⟨_, Transaction.id_eq_ok.mpr ⟨_, Transaction.idPreimage_eq hitem, rfl⟩⟩
  -- The proposer's number is the current one, so no stored transaction bears it, nor has this identifier.
  have hfresh : id ∉ l.transactions.keys :=
    horderly.fresh hnamed hready hid hsequence (Engine.sequence?_of_key? haccount hkey) hfree
  have hpolicy : G.engine.Policy l (Signable.replace e m).toTransaction id payload envelope := by
    refine ⟨hfresh, hgas, hreference, hfull, ?_, ?_, account, key, haccount, hkey, hsequence⟩
    · intro address index signature hfind
      obtain ⟨a, ha, hplace, hsigns⟩ := hsigned.payloadSignatures.exists_signs hfind
      refine (hbacked a ?_).verifies hplace hsigns
      rcases List.mem_append.mp ha with ha | ha
      · exact (Roles.Holds.authorizer ha).mem_accounts
      · obtain rfl := List.mem_singleton.mp ha
        exact (Roles.Holds.proposer hsigned.proposes).mem_accounts
    · intro address index signature hfind
      obtain ⟨hplace, hsigns⟩ := hsigned.envelopeSignatures.signs hfind
      exact (hbacked payer (Roles.Holds.payer hsigned.pays).mem_accounts).verifies hplace hsigns
  have hvalid := (Engine.validate_iff_policy hpayload henvelope hready.prepared).mpr hpolicy
  refine ⟨id, hid, ?_⟩
  simp only [admission, hcomplete, Engine.accept, hid, hvalid, bind, Except.bind, pure, Except.pure]
  rfl

theorem prepare_built {c : Client (State μ)} {roles : Roles} {proposer payer : Account} {key : AccountKey}
    {account : StoredAccount} {record : StoredKey} {b : StoredBlock} (script : Bytes) {arguments : List Json}
    {gasLimit : Option Int} (hproposer : roles.proposer = some proposer) (hpayer : roles.payer = some payer)
    (hkey : proposer.defaultKey = .ok key)
    (haccount : c.backend.ledger.accounts.find? proposer.address = some account)
    (hfound : account.key? key.index = some record) (hrevoked : record.revoked = false)
    (hb : c.backend.ledger.blocks.getLast? = some b) (harguments : ∀ v ∈ arguments, ∃ b, Argument.encode v = .ok b)
    (hpositive : ∀ gas, gasLimit = some gas → 0 < gas) :
    ∃ e p, Envelope.build roles (.bytes script) arguments gasLimit none = .ok e ∧
      Draft.prepare G.gateway Envelope.defaultGasLimit ⟨e, c⟩ = (.ok (), ⟨p, c⟩) ∧ p.Staged roles proposer payer ∧
      p.Ready ∧ p.gasLimit = some (gasLimit.getD Envelope.defaultGasLimit) ∧ p.referenceBlock = some b.id ∧
      p.proposalKey = ⟨proposer.address, key.index, some record.sequenceNumber⟩ := by
  refine ⟨_, _, Envelope.build_eq_ok hproposer hpayer hkey harguments hpositive,
    Draft.prepare_eq_ok haccount hfound hrevoked hb Envelope.defaultGasLimit, ?_, ?_, rfl, rfl, rfl⟩
  · exact ⟨rfl, rfl, rfl, Account.slot?_of_defaultKey hkey⟩
  · exact ⟨rfl, harguments⟩

/-- What is built for roles whose accounts the ledger backs goes through: it is sent, sealed in one block more under its
identifier, and the proposer's sequence number goes up by one. -/
theorem pipeline_accepted (hR : G.engine.runtime.WellBehaved) (hsteady : G.engine.runtime.Steady) {s : State μ}
    (hs : G.Starts s) {calls : List Call} (hcount : creations calls < 2 ^ 63) {c : Client (State μ)}
    (hc : c.backend = G.run s calls) {time : Moment} (hclock : G.engine.clock c.backend.engine.readings = .ok time)
    {roles : Roles} {proposer payer : Account} (hproposer : roles.proposer = some proposer)
    (hpayer : roles.payer = some payer)
    (hbacked : ∀ a ∈ roles.accounts, a.Backed G.engine.suite c.backend.ledger) {script : Bytes} {arguments : List Json}
    (harguments : ∀ v ∈ arguments, ∃ b, Argument.encode v = .ok b) {gasLimit : Option Int}
    (hpositive : ∀ gas, gasLimit = some gas → 0 < gas)
    (hlimit : gasLimit.getD Envelope.defaultGasLimit ≤ G.engine.maxGasLimit)
    (hfree : ∀ e, Envelope.build roles (.bytes script) arguments gasLimit none = .ok e →
      G.engine.suite.CollisionFree fun p => c.backend.ledger.DigestsTransaction p ∨
        (Draft.send G.gateway ⟨e, c⟩).2.paper.idPreimage = .ok p) :
    ∃ e, ∃ id : Bytes, ∃ d b key n, Envelope.build roles (.bytes script) arguments gasLimit none = .ok e ∧
      Draft.send G.gateway ⟨e, c⟩ = (.ok id, d) ∧ d.paper.id G.engine.suite = .ok id ∧
      d.client.backend.ledger.blocks = c.backend.ledger.blocks ++ [b] ∧ proposer.defaultKey = .ok key ∧
      c.backend.ledger.accounts.sequence? proposer.address key.index = some n ∧
      d.client.backend.ledger.accounts.sequence? proposer.address key.index = some (n + 1) := by
  have hlive : (G.run s calls).Keeps c.backend.ledger := hc ▸ .live
  have horderly := orderly_run hR hs hcount hlive
  obtain ⟨hblocks, hnamed⟩ := named_run hs hlive
  -- The ledger has what preparing asks for: the proposer's key, and a last block.
  obtain ⟨key, record, hkey, hrecord, hrevoked, _⟩ := hbacked proposer (Roles.Holds.proposer hproposer).mem_accounts
  obtain ⟨account, haccount, hfound⟩ := Option.bind_eq_some_iff.mp hrecord
  obtain ⟨b, hb⟩ := Option.isSome_iff_exists.mp (List.getLast?_isSome.mpr hblocks)
  obtain ⟨e, p, hbuild, hprepare, hstaged, hready, hgas, hreference, hplace⟩ :=
    prepare_built (G := G) script hproposer hpayer hkey haccount hfound hrevoked hb harguments hpositive
  obtain ⟨m, payload, envelope, hsign, hsigned⟩ := Envelope.sign_eq_ok hready hstaged.attached hproposer hpayer
    fun a ha => (hbacked a ha).willing
  -- Sending is preparing, signing and submitting, and it is submitting that digests the signed envelope.
  have hsend := Draft.send_eq_submit (G := G) hprepare hsign
  have hfree := hfree e hbuild
  rw [hsend] at hfree
  have haddress : p.proposalKey.address = proposer.address := congrArg ProposalKey.address hplace
  have hindex : p.proposalKey.keyIndex = key.index := congrArg ProposalKey.keyIndex hplace
  have hsequence : p.proposalKey.sequenceNumber = some record.sequenceNumber :=
    congrArg ProposalKey.sequenceNumber hplace
  obtain ⟨id, hid, hadmission⟩ := admission_of_signed horderly hnamed hstaged hready ⟨_, hgas, hlimit⟩
    ⟨b, List.mem_of_getLast? hb, hreference⟩ (haddress ▸ haccount) (hindex ▸ hfound) hsequence hbacked hsigned hfree
  rw [haddress] at hadmission
  obtain ⟨hanswer, hbackend⟩ := G.submit_eq_attempt (Signable.replace p m) c
  obtain ⟨hsealed, ⟨b', hb'⟩, hraised⟩ := Engine.attempt_seals hR hsteady (admission_admitted hadmission).fits
    (s := c.backend.engine) hclock
  rw [hadmission] at hanswer hbackend
  have hcurrent := Engine.sequence?_of_key? haccount hfound
  refine ⟨e, id, _, b', key, record.sequenceNumber, hbuild,
    hsend.trans (Prod.ext (congrArg (Except.map Ticket.id) (hanswer.trans hsealed)) rfl), hid, ?_, hkey, hcurrent, ?_⟩
  · rw [hbackend]
    exact hb'
  · have hindex : (Signable.replace p m).toTransaction.loosen.keyIndex = key.index := hindex
    rw [hindex] at hraised
    rw [hbackend]
    exact hraised.trans (congrArg (Option.map (· + 1)) hcurrent)

/-- A key that nobody controls, with a signer that signs everything alike. -/
def carelessKey : AccountKey :=
  ⟨0, ⟨nobodysKey.publicKey, none, fun _ => .ok (List.replicate pairSize 1)⟩, .ecdsaP256, .sha3_256⟩

def carelessAccount (name : Text) (address : Bytes) : Account := { name, address, keys := [carelessKey] }

/-- The proposer is an authorizer as well; the payer stands twice among the authorizers. -/
def carelessRoles : Roles :=
  let service := carelessAccount "service" Engine.serviceAddress
  let first := carelessAccount "first" (Bytes.ofNat Address.size 1)
  ⟨some service, some first, [first, service, first]⟩

/-- A client after the account of the payer has been created. -/
def carelessClient : Client (State Unit) :=
  .start ((trusting Runtime.null).run (trustingStart Runtime.null ()) [⟨.start (), .createAccount [carelessKey]⟩])

theorem carelessRoles_backed : ∀ a ∈ carelessRoles.accounts, a.Backed trustingSuite carelessClient.backend.ledger := by
  have hbacked (name : Text) (address : Bytes) (hrecord : carelessClient.backend.ledger.key? address 0 =
      some ⟨0, nobodysKey.publicKey, .ecdsaP256, .sha3_256, 1000, 0, false⟩) :
      (carelessAccount name address).Backed trustingSuite carelessClient.backend.ledger :=
    ⟨carelessKey, _, rfl, hrecord, rfl, rfl, rfl, rfl, fun _ => ⟨_, rfl, rfl⟩⟩
  have hservice := hbacked "service" Engine.serviceAddress (by decide +kernel)
  have hfirst := hbacked "first" (Bytes.ofNat Address.size 1) (by decide +kernel)
  intro a ha
  simp only [carelessRoles, Roles.accounts, Option.toList_some, List.mem_append, List.mem_cons, List.not_mem_nil,
    or_false] at ha
  rcases ha with ((rfl | rfl | rfl) | rfl) | rfl
  · exact hfirst
  · exact hservice
  · exact hfirst
  · exact hservice
  · exact hfirst

theorem pipeline_accepted_overlapping :
    (∀ a ∈ carelessRoles.accounts, a.Backed trustingSuite carelessClient.backend.ledger) ∧
    ∃ e, ∃ id : Bytes, ∃ d b, Envelope.build carelessRoles (.bytes [0x74, 0x78]) [] none none = .ok e ∧
      Draft.send (trusting Runtime.null).gateway ⟨e, carelessClient⟩ = (.ok id, d) ∧
      d.client.backend.ledger.blocks = carelessClient.backend.ledger.blocks ++ [b] ∧
      d.client.backend.ledger.accounts.sequence? Engine.serviceAddress 0 = some 1 := by
  have hsteady : Runtime.null.Steady := fun _ _ _ _ _ _ h => by cases h
  have hs : (trusting Runtime.null).Starts (trustingStart Runtime.null ()) := ⟨nobodysKey, (), rfl, rfl⟩
  have harguments : ∀ v ∈ ([] : List Json), ∃ b, Argument.encode v = .ok b := nofun
  have hgas : ∀ gas, (none : Option Int) = some gas → 0 < gas := nofun
  obtain ⟨e, id, d, b, key, n, hbuild, hsend, _, hblocks, hkey, hbefore, hafter⟩ :=
    pipeline_accepted Runtime.null_wellBehaved hsteady hs (by decide) (c := carelessClient) rfl rfl rfl rfl
      carelessRoles_backed harguments hgas (by decide)
      fun e (_ : Envelope.build carelessRoles (.bytes [0x74, 0x78]) [] none none = .ok e) _ _ _ _ h => h
  obtain rfl := Except.ok.inj hkey
  have hzero : carelessClient.backend.ledger.accounts.sequence? Engine.serviceAddress 0 = some 0 := by decide +kernel
  obtain rfl : 0 = n := Option.some.inj (hzero.symm.trans hbefore)
  exact ⟨carelessRoles_backed, e, id, d, b, hbuild, hsend, hblocks, hafter⟩

end Embedded

end Signatory
