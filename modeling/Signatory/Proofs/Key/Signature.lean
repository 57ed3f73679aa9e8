import Signatory.Key.Signer
import Signatory.Proofs.Key.Der

/-! Raw keys and signatures. Two numbers of 32 bytes are told by their 64 bytes, whatever zeros these begin with, so that a
signature that was made in DER is verified from its raw form; and whatever bytes are given, verification decides. -/

namespace Signatory
set_option autoImplicit false

theorem pair_bound : Nat.pow 256 Ecdsa.scalarSize = 256 ^ 32 := rfl

theorem encodePair?_eq_some {p : Nat × Nat} (hfirst : p.1 < 256 ^ 32) (hsecond : p.2 < 256 ^ 32) :
    encodePair? p = some (Bytes.ofNat 32 p.1 ++ Bytes.ofNat 32 p.2) := by
  rw [encodePair?, pair_bound]
  exact if_pos ⟨hfirst, hsecond⟩

theorem length_pair (x y : Nat) : (Bytes.ofNat 32 x ++ Bytes.ofNat 32 y).length = 64 := by
  rw [List.length_append, Bytes.length_ofNat, Bytes.length_ofNat]

theorem decodePair?_eq_some_iff {raw : Bytes} {p : Nat × Nat} :
    decodePair? raw = some p ↔ (p.1 < 256 ^ 32 ∧ p.2 < 256 ^ 32) ∧ raw = Bytes.ofNat 32 p.1 ++ Bytes.ofNat 32 p.2 := by
  have hsize : pairSize = 64 := rfl
  have hscalar : Ecdsa.scalarSize = 32 := rfl
  rw [decodePair?, hsize, hscalar]
  constructor
  · intro h
    split at h
    · rename_i hlength
      obtain rfl := Option.some.inj h
      have hfront : (raw.take 32).length = 32 := by
        rw [List.length_take]
        omega
      have hback : (raw.drop 32).length = 32 := by
        rw [List.length_drop]
        omega
      have hx := Bytes.toNat_lt (raw.take 32)
      have hy := Bytes.toNat_lt (raw.drop 32)
      have hfrontBytes := Bytes.ofNat_toNat (raw.take 32)
      have hbackBytes := Bytes.ofNat_toNat (raw.drop 32)
      rw [hfront] at hx hfrontBytes
      rw [hback] at hy hbackBytes
      refine ⟨⟨hx, hy⟩, ?_⟩
      rw [hfrontBytes, hbackBytes, List.take_append_drop]
    · cases h
  · rintro ⟨⟨hfirst, hsecond⟩, rfl⟩
    have hlength := Bytes.length_ofNat 32 p.1
    rw [if_pos (length_pair p.1 p.2), List.take_left' hlength, List.drop_left' hlength, Bytes.toNat_ofNat hfirst,
      Bytes.toNat_ofNat hsecond]

theorem SignatureAlgorithm.order_lt (A : SignatureAlgorithm) : A.order < 256 ^ 32 := by
  cases A <;> decide

theorem SignatureAlgorithm.fieldPrime_lt (A : SignatureAlgorithm) : A.curve.fieldPrime < 256 ^ 32 := by
  cases A <;> decide

theorem SignatureAlgorithm.isPoint_base (A : SignatureAlgorithm) : A.curve.isPoint A.curve.baseX A.curve.baseY = true := by
  cases A <;> decide

theorem SignatureAlgorithm.ofName?_name (A : SignatureAlgorithm) : ofName? A.name = some A := by
  cases A <;> rfl

theorem HashAlgorithm.ofName?_name (H : HashAlgorithm) : ofName? H.name = some H := by
  cases H <;> rfl

theorem Curve.lt_of_isPoint {C : Curve} {x y : Nat} (h : C.isPoint x y = true) : x < C.fieldPrime ∧ y < C.fieldPrime := by
  simp only [isPoint, Bool.and_eq_true, decide_eq_true_eq] at h
  exact h.1

/-- The bytes are the coordinates of a point of the curve, 32 bytes each. -/
def EncodesPoint (A : SignatureAlgorithm) (raw : Bytes) : Prop :=
  ∃ x y, A.curve.isPoint x y = true ∧ raw = Bytes.ofNat 32 x ++ Bytes.ofNat 32 y

namespace PrivateKey

/-- The scalar is that of a key: at least 1 and below the order of the curve. -/
structure Valid (k : PrivateKey) : Prop where
  pos : 1 ≤ k.scalar
  lt_order : k.scalar < k.algorithm.order

theorem valid_ofSeed (A : SignatureAlgorithm) (seed : Bytes) : (ofSeed A seed).Valid := by
  have horder : 1 < A.order := by cases A <;> decide
  refine ⟨Nat.le_add_left 1 _, ?_⟩
  have hless := Nat.mod_lt (Sha256.digest seed).toNat (Nat.sub_pos_of_lt horder)
  change (Sha256.digest seed).toNat % (A.order - 1) + 1 < A.order
  omega

theorem valid_of_ofHexNamed {algorithm : Option Text} {given : Text} {k : PrivateKey}
    (h : ofHexNamed algorithm given = .ok k) : k.Valid := by
  unfold ofHexNamed at h
  dsimp only at h
  cases hscalar : Text.Numeral.hexadecimal? ((Text.afterFront? "0x" given).getD given) with
  | none =>
    rw [hscalar] at h
    cases h
  | some scalar =>
    rw [hscalar] at h
    dsimp only at h
    split at h
    · cases h
    · rename_i A _
      split at h
      · rename_i hrange
        obtain rfl := Except.ok.inj h
        obtain ⟨hpos, hless⟩ := hrange
        constructor <;> dsimp only <;> omega
      · cases h

end PrivateKey

/-- The suite tells the points of the curves from other pairs, and public keys are such points; its signatures stand for two
numbers from 1 up to the order of the curve, and are verified under the public key of the key that made them. -/
structure CryptoSuite.Sound (suite : CryptoSuite) : Prop where
  isPoint : ∀ A p, suite.isPoint A p = A.curve.isPoint p.1 p.2
  publicPoint : ∀ k : PrivateKey, k.Valid →
    k.algorithm.curve.isPoint (suite.publicPoint k.algorithm k.scalar).1 (suite.publicPoint k.algorithm k.scalar).2 = true
  sign : ∀ (k : PrivateKey) (H : HashAlgorithm) (message : Bytes), k.Valid →
    ∃ r s, Der.pair? (suite.sign k.algorithm H k.scalar message) = some (r, s) ∧
      (1 ≤ r ∧ r < k.algorithm.order) ∧ (1 ≤ s ∧ s < k.algorithm.order)
  verify : ∀ (k : PrivateKey) (H : HashAlgorithm) (message : Bytes), k.Valid →
    suite.verify k.algorithm H (suite.publicPoint k.algorithm k.scalar) message
      (suite.sign k.algorithm H k.scalar message) = true

section

variable {suite : CryptoSuite}

theorem decodePublicKey_eq_ok_iff {A : SignatureAlgorithm} {raw : Bytes} {p : Nat × Nat} :
    decodePublicKey suite A raw = .ok p ↔ decodePair? raw = some p ∧ suite.isPoint A p = true := by
  rw [decodePublicKey]
  cases hpair : decodePair? raw with
  | none => exact iff_of_false nofun nofun
  | some q =>
    dsimp only
    split
    · rename_i hpoint
      rw [Except.ok.injEq, Option.some.injEq]
      exact ⟨fun h => ⟨h, h ▸ hpoint⟩, fun h => h.1⟩
    · rename_i hpoint
      refine iff_of_false nofun ?_
      rintro ⟨hsame, hother⟩
      obtain rfl := Option.some.inj hsame
      exact hpoint hother

theorem verifySignature_eq_true_iff {publicKey : Bytes} {A : SignatureAlgorithm} {H : HashAlgorithm}
    {message signature : Bytes} : verifySignature suite publicKey A H message signature = true ↔
      ∃ s key, decodePair? signature = some s ∧ decodePublicKey suite A publicKey = .ok key ∧
        suite.verify A H key message (Der.pair s) = true := by
  rw [verifySignature]
  split
  · rename_i s key hs hkey
    constructor
    · intro h
      exact ⟨s, key, hs, hkey, h⟩
    · rintro ⟨s', key', hs', hkey', h⟩
      obtain rfl := Option.some.inj (hs.symm.trans hs')
      obtain rfl := Except.ok.inj (hkey.symm.trans hkey')
      exact h
  · rename_i hother
    refine iff_of_false Bool.false_ne_true ?_
    rintro ⟨s, key, hs, hkey, _⟩
    exact hother s key hs hkey

/-- With algorithms that are supported verification decides, whatever bytes it is given. -/
theorem verifySignatureNamed_name (publicKey : Bytes) (A : SignatureAlgorithm) (H : HashAlgorithm)
    (message signature : Bytes) : verifySignatureNamed suite publicKey A.name H.name message signature =
      .ok (verifySignature suite publicKey A H message signature) := by
  rw [verifySignatureNamed, A.ofName?_name]
  dsimp only
  split
  · rw [H.ofName?_name]
  · rename_i hother
    rw [verifySignature]
    split
    · rename_i s key hs hkey
      exact absurd hkey (hother s key hs)
    · rfl

namespace CryptoSuite.Sound

variable {k : PrivateKey} {H : HashAlgorithm}

theorem encodesPoint (h : suite.Sound) {A : SignatureAlgorithm} {publicKey : Bytes} {p : Nat × Nat}
    (hkey : decodePublicKey suite A publicKey = .ok p) : EncodesPoint A publicKey := by
  obtain ⟨hpair, hpoint⟩ := decodePublicKey_eq_ok_iff.mp hkey
  rw [h.isPoint] at hpoint
  exact ⟨p.1, p.2, hpoint, (decodePair?_eq_some_iff.mp hpair).2⟩

/-- The public key of a private key is the point that it is derived as. -/
theorem decodePublicKey_publicKey (h : suite.Sound) (hk : k.Valid) :
    decodePublicKey suite k.algorithm (k.publicKey suite) = .ok (suite.publicPoint k.algorithm k.scalar) := by
  have hpoint := h.publicPoint k hk
  obtain ⟨hx, hy⟩ := Curve.lt_of_isPoint hpoint
  have hfirst := Nat.lt_trans hx k.algorithm.fieldPrime_lt
  have hsecond := Nat.lt_trans hy k.algorithm.fieldPrime_lt
  apply decodePublicKey_eq_ok_iff.mpr
  rw [PrivateKey.publicKey, encodePair?_eq_some hfirst hsecond, Option.getD_some, h.isPoint]
  exact ⟨decodePair?_eq_some_iff.mpr ⟨⟨hfirst, hsecond⟩, rfl⟩, hpoint⟩

theorem exists_sign (h : suite.Sound) (hk : k.Valid) (H : HashAlgorithm) (message : Bytes) :
    ∃ s signature, (Signer.ofPrivateKey suite k H).sign message = .ok signature ∧ decodePair? signature = some s ∧
      suite.sign k.algorithm H k.scalar message = Der.pair s := by
  obtain ⟨r, s, hder, ⟨_, hr⟩, ⟨_, hs⟩⟩ := h.sign k H message hk
  have hfirst := Nat.lt_trans hr k.algorithm.order_lt
  have hsecond := Nat.lt_trans hs k.algorithm.order_lt
  refine ⟨(r, s), _, ?_, decodePair?_eq_some_iff.mpr ⟨⟨hfirst, hsecond⟩, rfl⟩, Der.eq_pair_of_pair? hder⟩
  rw [Signer.ofPrivateKey]
  dsimp only
  rw [hder]
  dsimp only
  rw [encodePair?_eq_some hfirst hsecond]

theorem createNamed_eq_ok (h : suite.Sound) (hk : k.Valid) (H : HashAlgorithm) {index : Int} (hindex : 0 ≤ index) :
    AccountKey.createNamed suite index (.ofPrivateKey suite k H) (some k.algorithm.name) (some H.name) =
      .ok ⟨index, .ofPrivateKey suite k H, k.algorithm, H⟩ := by
  have hpublic : decodePublicKey suite k.algorithm (Signer.ofPrivateKey suite k H).publicKey =
      .ok (suite.publicPoint k.algorithm k.scalar) := h.decodePublicKey_publicKey hk
  have hhash : AccountKey.checkHash index (.ofPrivateKey suite k H) H = .ok () := by
    rw [AccountKey.checkHash]
    simp [Signer.ofPrivateKey, H.ofName?_name]
  simp only [AccountKey.createNamed, AccountKey.create, if_neg (Int.not_lt.mpr hindex), Option.getD_some,
    k.algorithm.ofName?_name, H.ofName?_name, hhash, hpublic]
  rfl

end CryptoSuite.Sound

end

theorem length_of_decodePair? {raw : Bytes} {p : Nat × Nat} (h : decodePair? raw = some p) : raw.length = 64 := by
  obtain ⟨_, rfl⟩ := decodePair?_eq_some_iff.mp h
  exact length_pair _ _

/-- Whatever the key, its hash and the message, signing gives 64 bytes, which are verified under the 64 bytes of the public
key, and the signer is taken for a key with its algorithms. Whatever the bytes given, verification decides, and against them
unless they are a signature of 64 bytes and a point of the curve. -/
theorem raw_signatures_verify {suite : CryptoSuite} (h : suite.Sound) :
    (∀ (k : PrivateKey) (H : HashAlgorithm) (message : Bytes), k.Valid →
      EncodesPoint k.algorithm (Signer.ofPrivateKey suite k H).publicKey ∧
      (∃ signature, (Signer.ofPrivateKey suite k H).sign message = .ok signature ∧ signature.length = 64 ∧
        verifySignatureNamed suite (Signer.ofPrivateKey suite k H).publicKey k.algorithm.name H.name message signature =
          .ok true) ∧
      ∀ index : Int, 0 ≤ index →
        AccountKey.createNamed suite index (.ofPrivateKey suite k H) (some k.algorithm.name) (some H.name) =
          .ok ⟨index, .ofPrivateKey suite k H, k.algorithm, H⟩) ∧
    ∀ (publicKey : Bytes) (A : SignatureAlgorithm) (H : HashAlgorithm) (message signature : Bytes), ∃ verdict,
      verifySignatureNamed suite publicKey A.name H.name message signature = .ok verdict ∧
        (signature.length ≠ 64 ∨ ¬EncodesPoint A publicKey → verdict = false) := by
  constructor
  · intro k H message hk
    have hpublic := h.decodePublicKey_publicKey hk
    obtain ⟨s, signature, hsigned, hpair, hder⟩ := h.exists_sign hk H message
    refine ⟨h.encodesPoint hpublic, ⟨signature, hsigned, length_of_decodePair? hpair, ?_⟩, ?_⟩
    · rw [verifySignatureNamed_name, Except.ok.injEq]
      apply verifySignature_eq_true_iff.mpr
      exact ⟨s, _, hpair, hpublic, hder ▸ h.verify k H message hk⟩
    · intro index hindex
      exact h.createNamed_eq_ok hk H hindex
  · intro publicKey A H message signature
    refine ⟨_, verifySignatureNamed_name publicKey A H message signature, ?_⟩
    intro hmalformed
    apply Bool.eq_false_iff.mpr
    intro htrue
    obtain ⟨s, key, hs, hkey, _⟩ := verifySignature_eq_true_iff.mp htrue
    rcases hmalformed with hlength | hpoint
    · exact hlength (length_of_decodePair? hs)
    · exact hpoint (h.encodesPoint hkey)

-- The standard suite where it keeps to what is relied on; a fixed point and a fixed signature stand in for the rest.
namespace Dependable

def publicPoint (A : SignatureAlgorithm) (scalar : Nat) : Nat × Nat :=
  let p := CryptoSuite.standard.publicPoint A scalar
  if A.curve.isPoint p.1 p.2 then p else (A.curve.baseX, A.curve.baseY)

/-- A signature is kept if its numbers are in range and the standard suite verifies it. -/
def Keeps (A : SignatureAlgorithm) (H : HashAlgorithm) (scalar : Nat) (message : Bytes) (s : Nat × Nat) : Prop :=
  ((1 ≤ s.1 ∧ s.1 < A.order) ∧ (1 ≤ s.2 ∧ s.2 < A.order)) ∧
    CryptoSuite.standard.verify A H (publicPoint A scalar) message (Der.pair s) = true

instance (A : SignatureAlgorithm) (H : HashAlgorithm) (scalar : Nat) (message : Bytes) (s : Nat × Nat) :
    Decidable (Keeps A H scalar message s) :=
  inferInstanceAs (Decidable (_ ∧ _))

def numbers (A : SignatureAlgorithm) (H : HashAlgorithm) (scalar : Nat) (message : Bytes) : Nat × Nat :=
  if Keeps A H scalar message (Ecdsa.sign A H scalar message) then Ecdsa.sign A H scalar message else (1, 1)

def suite : CryptoSuite where
  digest := CryptoSuite.standard.digest
  isPoint := CryptoSuite.standard.isPoint
  publicPoint := publicPoint
  sign A H scalar message := Der.pair (numbers A H scalar message)
  verify A H key message signature :=
    CryptoSuite.standard.verify A H key message signature || signature == Der.pair (1, 1)

theorem numbers_range (A : SignatureAlgorithm) (H : HashAlgorithm) (scalar : Nat) (message : Bytes) :
    (1 ≤ (numbers A H scalar message).1 ∧ (numbers A H scalar message).1 < A.order) ∧
      (1 ≤ (numbers A H scalar message).2 ∧ (numbers A H scalar message).2 < A.order) := by
  rw [numbers]
  split
  · rename_i hkept
    exact hkept.1
  · cases A <;> decide

theorem sound : suite.Sound where
  isPoint _ _ := rfl
  publicPoint k _ := by
    change k.algorithm.curve.isPoint (publicPoint k.algorithm k.scalar).1 (publicPoint k.algorithm k.scalar).2 = true
    rw [publicPoint]
    split
    · assumption
    · exact k.algorithm.isPoint_base
  sign k H message _ := by
    have hrange := numbers_range k.algorithm H k.scalar message
    refine ⟨_, _, Der.pair?_pair ?_ ?_, hrange⟩
    · exact Nat.lt_trans hrange.1.2 k.algorithm.order_lt
    · exact Nat.lt_trans hrange.2.2 k.algorithm.order_lt
  verify k H message _ := by
    change (CryptoSuite.standard.verify k.algorithm H (publicPoint k.algorithm k.scalar) message
      (Der.pair (numbers k.algorithm H k.scalar message)) ||
      Der.pair (numbers k.algorithm H k.scalar message) == Der.pair (1, 1)) = true
    rw [numbers]
    split
    · rename_i hkept
      rw [hkept.2, Bool.true_or]
    · rw [beq_self_eq_true, Bool.or_true]

end Dependable

def seededKey : PrivateKey := .ofSeed .ecdsaSecp256k1 [0x61, 0x6C, 0x69, 0x63, 0x65]

theorem raw_signatures_verify_seeded :
    (Dependable.suite.Sound ∧ seededKey.Valid) ∧
    (∃ signature, (Signer.ofPrivateKey Dependable.suite seededKey .sha2_256).sign [0x6D] = .ok signature ∧
      signature.length = 64 ∧
      verifySignatureNamed Dependable.suite (Signer.ofPrivateKey Dependable.suite seededKey .sha2_256).publicKey
        "ECDSA_secp256k1" "SHA2_256" [0x6D] signature = .ok true) ∧
    AccountKey.createNamed Dependable.suite 3 (.ofPrivateKey Dependable.suite seededKey .sha2_256)
      (some "ECDSA_secp256k1") (some "SHA2_256") =
        .ok ⟨3, .ofPrivateKey Dependable.suite seededKey .sha2_256, .ecdsaSecp256k1, .sha2_256⟩ ∧
    verifySignatureNamed Dependable.suite [] "ECDSA_P256" "SHA3_256" [0x6D] (List.replicate 63 1) = .ok false := by
  have hvalid : seededKey.Valid := PrivateKey.valid_ofSeed _ _
  obtain ⟨hsigned, hdecided⟩ := raw_signatures_verify Dependable.sound
  obtain ⟨_, hsignature, hkey⟩ := hsigned seededKey .sha2_256 [0x6D] hvalid
  obtain ⟨verdict, hverdict, hmalformed⟩ := hdecided [] .ecdsaP256 .sha3_256 [0x6D] (List.replicate 63 1)
  have hshort : (List.replicate 63 (1 : UInt8)).length ≠ 64 := by decide
  refine ⟨⟨Dependable.sound, hvalid⟩, hsignature, hkey 3 (by decide), ?_⟩
  rw [hmalformed (.inl hshort)] at hverdict
  exact hverdict

end Signatory
