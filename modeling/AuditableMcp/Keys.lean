import AuditableMcp.Verify
import AuditableMcp.Host
/-!
# `encoding.py`, `l2/keys.py`, `l2/verification.py`: keys, and what verifies under them

| here | there |
| --- | --- |
| `b64urlEncode`, `b64urlDecode`, `b64StandardDecode` | `encoding.py:19-67` |
| `PublicKey`, `RegisteredKey`, `KeyRegistry`   | `l2/keys.py:41-78`, `:148-291` |
| `Crypto`              | the two `verify` calls of the `cryptography` package |
| `decodeSignature`, `verifyEvent`, `verifyDetachedSignature` | `l2/verification.py:32-122` |
| `rejectReason`, `KeyRegistry.check`, `KeyRegistry.verify` | `KeyRegistryVerifier` (`:126-185`) |
| `KeyRegistry.confirms` | `CountersignatureRegistryVerifier.check` (`:216-226`) |

A verifier holds a registry of one role, which its constructor requires (`:134-144`, `:201-213`); here the
role is a parameter of the registry's type.
-/
namespace AuditableMcp

open JsonValue

abbrev Bytes := List Nat

/-! ## base64 -/

/-- The six bits a letter of an alphabet stands for; the alphabets differ in their last two letters. -/
def sextet (sixtyTwo sixtyThree : Char) (n : Nat) : Option Nat :=
  if 'A'.toNat ≤ n ∧ n ≤ 'Z'.toNat then some (n - 'A'.toNat)
  else if 'a'.toNat ≤ n ∧ n ≤ 'z'.toNat then some (n - 'a'.toNat + 26)
  else if '0'.toNat ≤ n ∧ n ≤ '9'.toNat then some (n - '0'.toNat + 52)
  else if n = sixtyTwo.toNat then some 62
  else if n = sixtyThree.toNat then some 63
  else none

/-- The letter of six bits. -/
def letter (sixtyTwo sixtyThree : Char) (n : Nat) : Nat :=
  if n < 26 then n + 'A'.toNat
  else if n < 52 then n - 26 + 'a'.toNat
  else if n < 62 then n - 52 + '0'.toNat
  else if n = 62 then sixtyTwo.toNat
  else sixtyThree.toNat

/-- Bytes in groups of six bits, the last one filled with zeros. -/
def toSextets : Bytes → List Nat
  | a :: b :: c :: rest => a / 4 :: (a % 4 * 16 + b / 16) :: (b % 16 * 4 + c / 64) :: c % 64 :: toSextets rest
  | [a, b] => [a / 4, a % 4 * 16 + b / 16, b % 16 * 4]
  | [a] => [a / 4, a % 4 * 16]
  | [] => []

/-- The bytes of groups of six bits; the bits left over are dropped. -/
def ofSextets : List Nat → Bytes
  | a :: b :: c :: d :: rest => (a * 4 + b / 16) :: (b % 16 * 16 + c / 4) :: (c % 4 * 64 + d) :: ofSextets rest
  | [a, b, c] => [a * 4 + b / 16, b % 16 * 16 + c / 4]
  | [a, b] => [a * 4 + b / 16]
  | [_] => []
  | [] => []

/-- `b64url_encode` (`encoding.py:19-21`). -/
def b64urlEncode (raw : Bytes) : Str := (toSextets raw).map (letter '-' '_')

/-- `b64url_decode` (`encoding.py:25-43`): strict, so a text decodes only if it is what its bytes encode to. -/
def b64urlDecode : Json → Option Bytes
  | .str s => do
    let bits ← s.mapM (sextet '-' '_')
    if bits.length % 4 = 1 then none
    else if b64urlEncode (ofSextets bits) = s then some (ofSextets bits)
    else none
  | _ => none

/-- `base64.b64encode`: with padding. -/
def b64StandardEncode (raw : Bytes) : Str :=
  (toSextets raw).map (letter '+' '/') ++ List.replicate ((3 - raw.length % 3) % 3) '='.toNat

/-- `b64_standard_decode` (`encoding.py:47-67`): one or two paddings at most, and the whole in fours. -/
def b64StandardDecode : Json → Option Bytes
  | .str s => do
    let body := (s.reverse.dropWhile (· = '='.toNat)).reverse
    let bits ← body.mapM (sextet '+' '/')
    if body = [] ∨ 2 < s.length - body.length ∨ s.length % 4 ≠ 0 then none
    else if b64StandardEncode (ofSextets bits) = s then some (ofSextets bits)
    else none
  | _ => none

/-! ## Keys -/

/-- `SignatureAlgorithm` (`l2/algorithms.py:12-16`). -/
inductive SignatureAlgorithm
  | ed25519 | es256
deriving DecidableEq

/-- `KeyRole` (`l2/algorithms.py:20-30`). -/
inductive KeyRole
  | tool | host
deriving DecidableEq

/-- A public key of the `cryptography` package, by its type and its DER encoding. -/
inductive PublicKey
  | ed25519 (der : Bytes)
  | ellipticCurve (secp256r1 : Bool) (der : Bytes)
deriving DecidableEq

def PublicKey.der : PublicKey → Bytes
  | .ed25519 d => d
  | .ellipticCurve _ d => d

/-- `_same_key` (`l2/keys.py:56-65`). -/
def sameKey (a b : PublicKey) : Bool := a.der == b.der

/-- `_is_key_of` (`l2/keys.py:69-77`). -/
def isKeyOf : PublicKey → SignatureAlgorithm → Bool
  | .ed25519 _, .ed25519 => true
  | .ellipticCurve secp256r1 _, .es256 => secp256r1
  | _, _ => false

/-- `RegisteredKey` (`l2/keys.py:41-52`). -/
structure RegisteredKey where
  algorithm : SignatureAlgorithm
  publicKey : PublicKey
  revoked : Bool := false
deriving DecidableEq

/-- `KeyRegistry` (`l2/keys.py:148-291`). -/
structure KeyRegistry (role : KeyRole) where
  keys : Str → Option RegisteredKey

namespace KeyRegistry

variable {role : KeyRole}

def empty : KeyRegistry role := ⟨fun _ => none⟩

/-- `register`: a `ValueError` for an empty `key_id`, a key that is none of its algorithm's, or a second key
under one `key_id`. -/
def register (keyId : Str) (publicKey : PublicKey) (algorithm : SignatureAlgorithm) (r : KeyRegistry role) :
    Checked (KeyRegistry role) :=
  if keyId = [] then .error .valueError
  else if isKeyOf publicKey algorithm = false then .error .valueError
  else
    match r.keys keyId with
    | some existing =>
      if existing.algorithm ≠ algorithm ∨ sameKey existing.publicKey publicKey = false then .error .valueError
      else .ok r
    | none => .ok ⟨Function.update r.keys keyId (some ⟨algorithm, publicKey, false⟩)⟩

/-- `revoke`: a `ValueError` for a `key_id` never registered. -/
def revoke (keyId : Str) (r : KeyRegistry role) : Checked (KeyRegistry role) :=
  match r.keys keyId with
  | none => .error .valueError
  | some entry => .ok ⟨Function.update r.keys keyId (some { entry with revoked := true })⟩

/-- `get`: revoked or not. -/
def get (r : KeyRegistry role) (keyId : Str) : Option RegisteredKey := r.keys keyId

/-- `current`: registered and not revoked. -/
def current (r : KeyRegistry role) (keyId : Str) : Option RegisteredKey :=
  (r.keys keyId).filter fun entry => !entry.revoked

/-- A registration or a revocation; `load_jwks` is a sequence of them. -/
inductive Change : KeyRegistry role → KeyRegistry role → Prop
  | register {r r' : KeyRegistry role} (keyId : Str) (publicKey : PublicKey) (algorithm : SignatureAlgorithm) :
      r.register keyId publicKey algorithm = .ok r' → Change r r'
  | revoke {r r' : KeyRegistry role} (keyId : Str) : r.revoke keyId = .ok r' → Change r r'

/-- A registry later: it only grew and revoked. -/
abbrev Later (r r' : KeyRegistry role) : Prop := Relation.ReflTransGen Change r r'

/-- An entry keeps its algorithm and its key for good. -/
theorem Change.get {r r' : KeyRegistry role} (h : Change r r') {keyId : Str} {entry : RegisteredKey}
    (he : r.get keyId = some entry) : ∃ entry', r'.get keyId = some entry' ∧
      entry'.algorithm = entry.algorithm ∧ entry'.publicKey = entry.publicKey := by
  have he' : r.keys keyId = some entry := he
  cases h with
  | register k publicKey algorithm hreg =>
    unfold KeyRegistry.register at hreg
    split at hreg
    · cases hreg
    · split at hreg
      · cases hreg
      · split at hreg
        · split at hreg
          · cases hreg
          · cases hreg
            exact ⟨entry, he, rfl, rfl⟩
        · next hnone =>
          cases hreg
          have hne : keyId ≠ k := by
            rintro rfl
            rw [he'] at hnone
            cases hnone
          exact ⟨entry, by simpa [KeyRegistry.get, hne] using he', rfl, rfl⟩
  | revoke k hrev =>
    unfold KeyRegistry.revoke at hrev
    split at hrev
    · cases hrev
    · next old hold =>
      cases hrev
      by_cases hk : keyId = k
      · subst hk
        obtain rfl : old = entry := by simpa [he'] using hold.symm
        exact ⟨{ old with revoked := true }, by simp [KeyRegistry.get], rfl, rfl⟩
      · exact ⟨entry, by simpa [KeyRegistry.get, hk] using he', rfl, rfl⟩

theorem Later.get {r r' : KeyRegistry role} (h : r.Later r') {keyId : Str} {entry : RegisteredKey}
    (he : r.get keyId = some entry) : ∃ entry', r'.get keyId = some entry' ∧
      entry'.algorithm = entry.algorithm ∧ entry'.publicKey = entry.publicKey := by
  induction h with
  | refl => exact ⟨entry, he, rfl, rfl⟩
  | tail _ hstep ih =>
    obtain ⟨mid, hmid, halg, hkey⟩ := ih
    obtain ⟨last, hlast, halg', hkey'⟩ := hstep.get hmid
    exact ⟨last, hlast, halg'.trans halg, hkey'.trans hkey⟩

theorem get_of_current {r : KeyRegistry role} {keyId : Str} {entry : RegisteredKey}
    (h : r.current keyId = some entry) : r.get keyId = some entry := by
  rw [current, Option.filter_eq_some_iff] at h
  exact h.1

end KeyRegistry

/-! ## Verification -/

/-- The verifications of the `cryptography` package: whether `verify` returns rather than raise
`InvalidSignature`. -/
structure Crypto where
  /-- `Ed25519PublicKey.verify(signature, payload)`. -/
  ed25519 : PublicKey → Bytes → Str → Bool
  /-- `EllipticCurvePublicKey.verify(encode_dss_signature(r, s), payload, ECDSA(hash))`, the verifier's hash. -/
  ecdsa : PublicKey → Nat → Nat → Str → Bool

variable (K : Crypto) (W : World)

/-- `int.from_bytes(raw, 'big')`. -/
def fromBytes (raw : Bytes) : Nat := raw.foldl (fun n b => n * 256 + b) 0

/-- A raw `r || s` signature under an elliptic-curve key (`l2/verification.py:111-122`). -/
def ecdsaRaw (key : PublicKey) (signature : Bytes) (payload : Str) : Bool :=
  K.ecdsa key (fromBytes (signature.take 32)) (fromBytes (signature.drop 32)) payload

/-- `_decode_signature` (`l2/verification.py:32-42`): as the event's own version encoded it. -/
def decodeSignature (e : Event) : Option Bytes :=
  match versionOf (.obj e) with
  | some version =>
    if version != SPEC_VERSION && KNOWN_SPEC_VERSIONS.contains version then b64StandardDecode (getNull e SIGNATURE)
    else b64urlDecode (getNull e SIGNATURE)
  | none => b64urlDecode (getNull e SIGNATURE)

/-- `signature_payload` (`l2/signing.py:22-25`); a `CanonicalizationError` is an error. -/
def signaturePayload (e : Event) : Except Str Str := canonicalize W (.obj (e.filter fun m => m.1 ≠ SIGNATURE))

/-- The dispatch of `_reject_reason` to the primitive of the bound algorithm (`l2/verification.py:84-122`,
`:175-181`). -/
def verifyEvent (e : Event) (entry : RegisteredKey) : Except Str Bool :=
  match entry.algorithm, entry.publicKey with
  | .ed25519, .ed25519 _ =>
    match decodeSignature e with
    | none => .ok false
    | some signature => (signaturePayload W e).map (K.ed25519 entry.publicKey signature)
  | .es256, .ellipticCurve _ _ =>
    match decodeSignature e with
    | none => .ok false
    | some signature =>
      if signature.length ≠ 64 then .ok false
      else (signaturePayload W e).map (ecdsaRaw K entry.publicKey signature)
  | _, _ => .ok false

def RejectReason.unknownKey : RejectReason := ⟨.unknownKey, by decide⟩
def RejectReason.signatureInvalid : RejectReason := ⟨.signatureInvalid, by decide⟩

/-- `_reject_reason` (`l2/verification.py:165-185`), its entry looked up as `find` does. -/
def rejectReason (find : Str → Option RegisteredKey) (e : Event) : Except Str (Option RejectReason) :=
  match keyId e with
  | none => .ok (some .unknownKey)
  | some k =>
    match find k with
    | none => .ok (some .unknownKey)
    | some entry => (verifyEvent K W e entry).map fun verified => if verified then none else some .signatureInvalid

/-- `KeyRegistryVerifier.verify`: a new event, so under a current key. -/
def KeyRegistry.verify (r : KeyRegistry .tool) (e : Event) : Except Raise (Option RejectReason) :=
  match rejectReason K W r.current e with
  | .ok reason => .ok reason
  | .error _ => .error .canonicalizationError

/-- `KeyRegistryVerifier.check`: a sealed event, so under a revoked key too. -/
def KeyRegistry.check (r : KeyRegistry .tool) (e : Event) : Checked Bool :=
  match rejectReason K W r.get e with
  | .ok reason => .ok reason.isNone
  | .error _ => .error (.raised (lit "CanonicalizationError"))

/-- `verify_detached_signature` (`l2/verification.py:46-80`). -/
def verifyDetachedSignature (payload : Str) (encoded : Json) (entry : RegisteredKey) : Bool :=
  match b64urlDecode encoded with
  | none => false
  | some signature =>
    match entry.algorithm, entry.publicKey with
    | .ed25519, .ed25519 _ => K.ed25519 entry.publicKey signature payload
    | .es256, .ellipticCurve _ _ => signature.length == 64 && ecdsaRaw K entry.publicKey signature payload
    | _, _ => false

/-- `CountersignatureRegistryVerifier.check`, on members of a stored record. -/
def KeyRegistry.confirms (r : KeyRegistry .host) (hostKeyId signature : Json) (payload : Str) : Checked Bool := do
  needHash hostKeyId
  match hostKeyId with
  | .str k =>
    match r.get k with
    | none => pure false
    | some entry => pure (verifyDetachedSignature K payload signature entry)
  | _ => pure false

variable {K W}

/-! ### A registry that only grew and revoked confirms what it confirmed -/

theorem verifyEvent_congr {e : Event} {entry entry' : RegisteredKey} (ha : entry'.algorithm = entry.algorithm)
    (hk : entry'.publicKey = entry.publicKey) : verifyEvent K W e entry' = verifyEvent K W e entry := by
  unfold verifyEvent
  rw [ha, hk]

theorem verifyDetachedSignature_congr {payload : Str} {encoded : Json} {entry entry' : RegisteredKey}
    (ha : entry'.algorithm = entry.algorithm) (hk : entry'.publicKey = entry.publicKey) :
    verifyDetachedSignature K payload encoded entry' = verifyDetachedSignature K payload encoded entry := by
  unfold verifyDetachedSignature
  rw [ha, hk]

/-- A verdict stands wherever the entries found keep their algorithm and key. -/
theorem rejectReason_later {find find' : Str → Option RegisteredKey} (hfind : ∀ k entry, find k = some entry →
      ∃ entry', find' k = some entry' ∧ entry'.algorithm = entry.algorithm ∧ entry'.publicKey = entry.publicKey)
    {e : Event} (h : rejectReason K W find e = .ok none) : rejectReason K W find' e = .ok none := by
  unfold rejectReason at h ⊢
  split at h
  · cases h
  · next k hk =>
    split at h
    · cases h
    · next entry hentry =>
      obtain ⟨entry', hget, ha, hkey⟩ := hfind k entry hentry
      simp only [hget, verifyEvent_congr ha hkey]
      exact h

/-- What was accepted under a current key passes the check of a sealed event under any later registry. -/
theorem KeyRegistry.check_of_verify {r r' : KeyRegistry .tool} (h : r.Later r') {e : Event}
    (hv : r.verify K W e = .ok none) : r'.check K W e = .ok true := by
  have hr : rejectReason K W r.current e = .ok none := by
    unfold KeyRegistry.verify at hv
    split at hv
    · next reason hr => rw [hr, Except.ok.inj hv]
    · cases hv
  simp [KeyRegistry.check, rejectReason_later (fun k entry hk => h.get (KeyRegistry.get_of_current hk)) hr]

theorem KeyRegistry.check_later {r r' : KeyRegistry .tool} (h : r.Later r') {e : Event}
    (hv : r.check K W e = .ok true) : r'.check K W e = .ok true := by
  have hr : rejectReason K W r.get e = .ok none := by
    unfold KeyRegistry.check at hv
    split at hv
    · next reason hr =>
      rw [hr, Option.isNone_iff_eq_none.1 (Except.ok.inj hv)]
    · cases hv
  simp [KeyRegistry.check, rejectReason_later (fun k entry hk => h.get hk) hr]

theorem KeyRegistry.confirms_later {r r' : KeyRegistry .host} (h : r.Later r') {key signature payload : Str}
    (hv : r.confirms K (.str key) (.str signature) payload = .ok true) :
    r'.confirms K (.str key) (.str signature) payload = .ok true := by
  have hhash : needHash (.str key) = .ok () := rfl
  simp only [KeyRegistry.confirms, hhash, bind, Except.bind] at hv ⊢
  cases hentry : r.get key with
  | none =>
    rw [hentry] at hv
    cases hv
  | some entry =>
    obtain ⟨entry', hget, ha, hkey⟩ := h.get hentry
    simp only [hentry] at hv
    simp only [hget, verifyDetachedSignature_congr ha hkey, hv]

end AuditableMcp
