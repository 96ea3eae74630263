import AuditableMcp.Keys
/-!
# `l2/jwk.py`, and a registry's JWK Sets (`l2/keys.py:195-258`)

| here | there |
| --- | --- |
| `publicJwk`, `publicKeyOf` | `l2/jwk.py:92-201` |
| `KeyTable`      | the dictionary under a `KeyRegistry` (`l2/keys.py:157`): its entries, and its key_ids in order |
| `KeyTable.toJwks` | `to_jwks` (`:195-210`) |
| `loadJwks`      | `load_jwks` (`:213-258`), over the registry and the rehearsal it makes of it |

A method that raises leaves the registries as it found or made them (`EStateM`). `str()` of a JSON value that is
no string is none of the names compared with here, so a member is compared where it is a string.
-/
namespace AuditableMcp

open JsonValue

/-! ## Names -/

/-- `_PARAMETERS`: `kty`, `crv` and `alg` (`l2/jwk.py:42-45`). -/
def SignatureAlgorithm.kty : SignatureAlgorithm → Str
  | .ed25519 => lit "OKP"
  | .es256 => lit "EC"

def SignatureAlgorithm.crv : SignatureAlgorithm → Str
  | .ed25519 => lit "Ed25519"
  | .es256 => lit "P-256"

def SignatureAlgorithm.alg : SignatureAlgorithm → Str
  | .ed25519 => lit "Ed25519"
  | .es256 => lit "ES256"

def KeyRole.text : KeyRole → Str
  | .tool => lit "tool"
  | .host => lit "host"

def ROLE_MEMBER : Str := lit "amcp_role"
def REVOKED_MEMBER : Str := lit "amcp_revoked"

/-! ## Bytes -/

/-- `n.to_bytes(len, 'big')`; `none` is its `OverflowError`. -/
def toBytes : Nat → Nat → Option Bytes
  | 0, n => if n = 0 then some [] else none
  | len + 1, n => (toBytes len (n / 256)).map (· ++ [n % 256])

/-- The texts are bytes. -/
def IsBytes (raw : Bytes) : Prop := ∀ b ∈ raw, b < 256

theorem fromBytes_concat (raw : Bytes) (b : Nat) : fromBytes (raw ++ [b]) = fromBytes raw * 256 + b := by
  simp [fromBytes, List.foldl_append]

/-- Fixed-width bytes read back. -/
theorem toBytes_eq_some {len n : Nat} {raw : Bytes} (h : toBytes len n = some raw) :
    raw.length = len ∧ IsBytes raw ∧ fromBytes raw = n := by
  induction len generalizing n raw with
  | zero =>
    simp only [toBytes, Option.ite_none_right_eq_some, Option.some.injEq] at h
    obtain ⟨rfl, rfl⟩ := h
    exact ⟨rfl, fun _ h => absurd h List.not_mem_nil, rfl⟩
  | succ len ih =>
    obtain ⟨high, hhigh, rfl⟩ := Option.map_eq_some_iff.1 h
    obtain ⟨hlen, hbytes, hval⟩ := ih hhigh
    refine ⟨by simp [hlen], fun b hb => ?_, ?_⟩
    · rcases List.mem_append.1 hb with hb | hb
      · exact hbytes b hb
      · obtain rfl := List.mem_singleton.1 hb
        omega
    · rw [fromBytes_concat, hval]
      omega

/-! ### base64url -/

/-- Each letter of an alphabet stands for its own six bits. -/
def Spelled (sixtyTwo sixtyThree : Char) : Prop :=
  ∀ n : Fin 64, sextet sixtyTwo sixtyThree (letter sixtyTwo sixtyThree n) = some n.1

theorem spelled_url : Spelled '-' '_' := by
  unfold Spelled
  decide

theorem mapM_sextet_letter {p q : Char} (h : Spelled p q) : ∀ {bits : List Nat}, (∀ b ∈ bits, b < 64) →
    (bits.map (letter p q)).mapM (sextet p q) = some bits
  | [], _ => rfl
  | b :: bits, hbits => by
    have hb := h ⟨b, hbits b List.mem_cons_self⟩
    have hrest := mapM_sextet_letter h fun c hc => hbits c (List.mem_cons_of_mem b hc)
    rw [List.map_cons, List.mapM_cons, hb, hrest]
    rfl

theorem toSextets_lt {raw : Bytes} (h : IsBytes raw) : ∀ b ∈ toSextets raw, b < 64 := by
  fun_induction toSextets raw with
  | case1 a b c rest ih =>
    have ha := h a (by simp)
    have hb := h b (by simp)
    have hc := h c (by simp)
    intro s hs
    simp only [List.mem_cons] at hs
    rcases hs with rfl | rfl | rfl | rfl | hs
    · omega
    · omega
    · omega
    · omega
    · exact ih (fun x hx => h x (by simp [hx])) s hs
  | case2 a b =>
    have ha := h a (by simp)
    have hb := h b (by simp)
    simp only [List.mem_cons, List.not_mem_nil, or_false]
    omega
  | case3 a =>
    have ha := h a (by simp)
    simp only [List.mem_cons, List.not_mem_nil, or_false]
    omega
  | case4 => simp

theorem ofSextets_toSextets {raw : Bytes} (h : IsBytes raw) : ofSextets (toSextets raw) = raw := by
  fun_induction toSextets raw with
  | case1 a b c rest ih =>
    have hb := h b (by simp)
    have hc := h c (by simp)
    rw [ofSextets, ih fun x hx => h x (by simp [hx])]
    congr 1
    · omega
    · congr 1
      · omega
      · congr 1
        omega
  | case2 a b =>
    have hb := h b (by simp)
    simp only [ofSextets, List.cons.injEq, and_true]
    omega
  | case3 a =>
    simp only [ofSextets, List.cons.injEq, and_true]
    omega
  | case4 => rfl

/-- No text of a base64 encoding is one letter over a multiple of four. -/
theorem toSextets_length (raw : Bytes) : (toSextets raw).length % 4 ≠ 1 := by
  fun_induction toSextets raw with
  | case1 a b c rest ih =>
    simp only [List.length_cons]
    omega
  | case2 a b => simp
  | case3 a => simp
  | case4 => simp

/-- What `b64url_encode` writes, `b64url_decode` reads. -/
theorem b64urlDecode_encode {raw : Bytes} (h : IsBytes raw) : b64urlDecode (.str (b64urlEncode raw)) = some raw := by
  have hbits := mapM_sextet_letter spelled_url (toSextets_lt h)
  simp only [b64urlDecode, b64urlEncode, hbits, Option.bind_eq_bind, Option.bind_some, toSextets_length raw, ↓reduceIte,
    ofSextets_toSextets h]

/-! ## Key material -/

/-- The prime of P-256. -/
def P256_PRIME : Nat := 0xffffffff00000001000000000000000000000000ffffffffffffffffffffffff

/-- What the `cryptography` package does with key material. -/
structure KeyCodec where
  /-- The public keys it holds. -/
  genuine : PublicKey → Prop
  /-- `public_bytes_raw()` of an Ed25519 key. -/
  raw : PublicKey → Bytes
  /-- `public_numbers()` of an elliptic-curve key. -/
  numbers : PublicKey → Nat × Nat
  /-- `Ed25519PublicKey.from_public_bytes`; `none` is its `ValueError`. -/
  ofRaw : Bytes → Option PublicKey
  /-- `EllipticCurvePublicNumbers(x, y, SECP256R1()).public_key()`; `none` for a point off the curve. -/
  ofNumbers : Nat → Nat → Option PublicKey

/-- It reads back the key it wrote: 32 bytes of an Ed25519 key, two coordinates below 2^256 of a P-256 one. -/
structure KeyCodec.Lawful (C : KeyCodec) : Prop where
  ofRaw_genuine : ∀ {b k}, C.ofRaw b = some k → C.genuine k ∧ isKeyOf k .ed25519 = true
  ofNumbers_genuine : ∀ {x y k}, C.ofNumbers x y = some k → C.genuine k ∧ isKeyOf k .es256 = true
  ofRaw_raw : ∀ {k}, C.genuine k → isKeyOf k .ed25519 = true →
    (C.raw k).length = 32 ∧ IsBytes (C.raw k) ∧ C.ofRaw (C.raw k) = some k
  ofNumbers_numbers : ∀ {k}, C.genuine k → isKeyOf k .es256 = true →
    (∃ x, toBytes 32 (C.numbers k).1 = some x) ∧ (∃ y, toBytes 32 (C.numbers k).2 = some y) ∧
      C.ofNumbers (C.numbers k).1 (C.numbers k).2 = some k

variable (C : KeyCodec)

/-! ## One JWK -/

def b64Member (k : Str) (raw : Bytes) : Str × Json := (k, .str (b64urlEncode raw))

/-- The key material of a JWK (`l2/jwk.py:117-130`). -/
def materialOf (publicKey : PublicKey) : SignatureAlgorithm → Checked Members
  | .ed25519 =>
    match publicKey with
    | .ed25519 _ => .ok [b64Member (lit "x") (C.raw publicKey)]
    | .ellipticCurve _ _ => .error .valueError
  | .es256 =>
    match publicKey with
    | .ellipticCurve _ _ =>
      match toBytes 32 (C.numbers publicKey).1, toBytes 32 (C.numbers publicKey).2 with
      | some x, some y => .ok [b64Member (lit "x") x, b64Member (lit "y") y]
      | _, _ => .error (.raised (lit "OverflowError"))
    | .ed25519 _ => .error .valueError

/-- `public_jwk` (`l2/jwk.py:92-135`). -/
def publicJwk (keyId : Str) (entry : RegisteredKey) (role : KeyRole) : Checked Members :=
  match materialOf C entry.publicKey entry.algorithm with
  | .error e => .error e
  | .ok material => .ok ([(lit "kid", .str keyId), (lit "kty", .str entry.algorithm.kty),
      (lit "crv", .str entry.algorithm.crv), (lit "alg", .str entry.algorithm.alg)] ++ material ++
      [(ROLE_MEMBER, .str role.text)] ++ if entry.revoked then [(REVOKED_MEMBER, .bool true)] else [])

/-- What a JWK describes. -/
structure JwkEntry where
  keyId : Str
  publicKey : PublicKey
  algorithm : SignatureAlgorithm
  role : KeyRole
deriving DecidableEq

/-- `if 'd' in jwk`, and `kid` (`l2/jwk.py:156-165`). -/
def kidOf (jwk : Members) : Checked Str :=
  match JsonValue.get jwk (lit "d"), JsonValue.get jwk (lit "kid") with
  | none, some (.str k) => if k = [] then .error .valueError else .ok k
  | _, _ => .error .valueError

/-- `_BY_PARAMETERS`, and `alg` where the JWK has one (`l2/jwk.py:166-173`). -/
def algorithmOf (jwk : Members) : Checked SignatureAlgorithm :=
  let named := [SignatureAlgorithm.ed25519, .es256].find? fun a =>
    hasText jwk (lit "kty") a.kty && hasText jwk (lit "crv") a.crv
  match named with
  | none => .error .valueError
  | some a =>
    match JsonValue.get jwk (lit "alg") with
    | none => .ok a
    | some v =>
      if v.hashable = false then .error .typeError
      else if v = .str a.alg then .ok a
      else .error .valueError

/-- `KeyRole(str(jwk.get(ROLE_MEMBER)))` (`l2/jwk.py:175-182`). -/
def roleOf (jwk : Members) : Checked KeyRole :=
  match [KeyRole.tool, .host].find? fun role => hasText jwk ROLE_MEMBER role.text with
  | some role => .ok role
  | none => .error .valueError

/-- `_check_revoked` (`l2/jwk.py:205-215`). -/
def checkRevoked (jwk : Members) : Checked Unit :=
  match JsonValue.get jwk REVOKED_MEMBER with
  | none => .ok ()
  | some (.bool _) => .ok ()
  | some _ => .error .valueError

/-- `_unb64url`, of a member of 32 bytes (`l2/jwk.py:71-88`, `:185-199`). -/
def bytesOf (jwk : Members) (member : Str) : Checked Bytes :=
  match b64urlDecode (getNull jwk member) with
  | none => .error .valueError
  | some raw => if raw.length = 32 then .ok raw else .error .valueError

def orValueError {α : Type} : Option α → Checked α
  | some a => .ok a
  | none => .error .valueError

/-- The key of a JWK (`l2/jwk.py:185-201`). -/
def jwkKey (jwk : Members) : SignatureAlgorithm → Checked PublicKey
  | .ed25519 => do
    let raw ← bytesOf jwk (lit "x")
    orValueError (C.ofRaw raw)
  | .es256 => do
    let x ← bytesOf jwk (lit "x")
    let y ← bytesOf jwk (lit "y")
    orValueError (C.ofNumbers (fromBytes x) (fromBytes y))

/-- `public_key_of` (`l2/jwk.py:139-201`). -/
def publicKeyOf (jwk : Members) : Checked JwkEntry := do
  let keyId ← kidOf jwk
  let algorithm ← algorithmOf jwk
  let role ← roleOf jwk
  checkRevoked jwk
  let publicKey ← jwkKey C jwk algorithm
  pure ⟨keyId, publicKey, algorithm, role⟩

/-- `key.get(REVOKED_MEMBER) is True`. -/
def saysRevoked (jwk : Members) : Bool := JsonValue.get jwk REVOKED_MEMBER == some (.bool true)

/-- `str(key['kid'])`, of a JWK that was read. -/
def kidText (jwk : Members) : Str :=
  match JsonValue.get jwk (lit "kid") with
  | some (.str k) => k
  | _ => []

variable {C}

theorem bytesOf_b64Member {jwk : Members} {member : Str} {raw : Bytes} (hget : JsonValue.get jwk member = some (.str (b64urlEncode raw)))
    (hbytes : IsBytes raw) (hlen : raw.length = 32) : bytesOf jwk member = .ok raw := by
  simp [bytesOf, getNull, hget, b64urlDecode_encode hbytes, hlen]

theorem algorithmOf_eq {jwk : Members} (a : SignatureAlgorithm) (hkty : JsonValue.get jwk (lit "kty") = some (.str a.kty))
    (hcrv : JsonValue.get jwk (lit "crv") = some (.str a.crv)) (halg : JsonValue.get jwk (lit "alg") = some (.str a.alg)) :
    algorithmOf jwk = .ok a := by
  have hash : ∀ s : Str, (Json.str s).hashable = true := fun _ => rfl
  cases a with
  | ed25519 =>
    simp [algorithmOf, hkty, hcrv, halg, hash]
  | es256 =>
    have hne : (Json.str (lit "EC") == .str (lit "OKP")) = false := by decide
    simp [algorithmOf, hasText, hkty, hcrv, halg, hash, List.find?, SignatureAlgorithm.kty, hne]

theorem roleOf_eq {jwk : Members} {role : KeyRole} (h : JsonValue.get jwk ROLE_MEMBER = some (.str role.text)) :
    roleOf jwk = .ok role := by
  cases role with
  | tool => simp [roleOf, h]
  | host =>
    have hne : (Json.str (lit "host") == .str (lit "tool")) = false := by decide
    simp [roleOf, hasText, h, List.find?, KeyRole.text, hne]

/-- The key of a JWK is the key it was written from. -/
theorem jwkKey_materialOf (hC : C.Lawful) {p : PublicKey} {a : SignatureAlgorithm} (hsuited : isKeyOf p a = true)
    (hgen : C.genuine p) : ∃ material, materialOf C p a = .ok material ∧ (∀ m ∈ material, m.1 = lit "x" ∨ m.1 = lit "y") ∧
      ∀ jwk, (∀ k v, JsonValue.get material k = some v → JsonValue.get jwk k = some v) → jwkKey C jwk a = .ok p := by
  cases a with
  | ed25519 =>
    cases p with
    | ellipticCurve secp der => cases hsuited
    | ed25519 der =>
      obtain ⟨hlen, hbytes, hof⟩ := hC.ofRaw_raw hgen hsuited
      refine ⟨_, rfl, by simp [b64Member], fun jwk hjwk => ?_⟩
      have hx := bytesOf_b64Member (hjwk (lit "x") _ ((get_cons _ _ _ _).trans (if_pos rfl))) hbytes hlen
      simp only [jwkKey, hx, bind, Except.bind, hof, orValueError]
  | es256 =>
    cases p with
    | ed25519 der => cases hsuited
    | ellipticCurve secp der =>
      obtain ⟨⟨x, hx⟩, ⟨y, hy⟩, hof⟩ := hC.ofNumbers_numbers hgen hsuited
      obtain ⟨hxlen, hxbytes, hxval⟩ := toBytes_eq_some hx
      obtain ⟨hylen, hybytes, hyval⟩ := toBytes_eq_some hy
      have hmat : materialOf C (.ellipticCurve secp der) .es256 = .ok [b64Member (lit "x") x, b64Member (lit "y") y] := by
        unfold materialOf
        rw [hx, hy]
      have hygets : JsonValue.get [b64Member (lit "x") x, b64Member (lit "y") y] (lit "y") = some (.str (b64urlEncode y)) := by
        rw [b64Member, get_cons, if_neg (by decide), b64Member, get_cons, if_pos rfl]
      refine ⟨_, hmat, by simp [b64Member], fun jwk hjwk => ?_⟩
      have hxof := bytesOf_b64Member (hjwk (lit "x") _ ((get_cons _ _ _ _).trans (if_pos rfl))) hxbytes hxlen
      have hyof := bytesOf_b64Member (hjwk (lit "y") _ hygets) hybytes hylen
      simp only [jwkKey, hxof, hyof, bind, Except.bind, hxval, hyval, hof, orValueError]

/-- The members around a JWK's key material. -/
def jwkHead (k : Str) (a : SignatureAlgorithm) : Members :=
  [(lit "kid", .str k), (lit "kty", .str a.kty), (lit "crv", .str a.crv), (lit "alg", .str a.alg)]

def jwkTail (role : KeyRole) (revoked : Bool) : Members :=
  (ROLE_MEMBER, .str role.text) :: if revoked then [(REVOKED_MEMBER, .bool true)] else []

/-- A key written as a JWK is read back. -/
theorem publicKeyOf_publicJwk (hC : C.Lawful) {k : Str} {entry : RegisteredKey} (role : KeyRole) (hk : k ≠ [])
    (hsuited : isKeyOf entry.publicKey entry.algorithm = true) (hgen : C.genuine entry.publicKey) :
    ∃ jwk, publicJwk C k entry role = .ok jwk ∧ publicKeyOf C jwk = .ok ⟨k, entry.publicKey, entry.algorithm, role⟩ ∧
      kidText jwk = k ∧ saysRevoked jwk = entry.revoked := by
  obtain ⟨material, hmat, hnames, hkey⟩ := jwkKey_materialOf hC hsuited hgen
  have hpublic : publicJwk C k entry role = .ok (jwkHead k entry.algorithm ++ (material ++ jwkTail role entry.revoked)) := by
    rw [publicJwk, hmat]
    simp [jwkHead, jwkTail]
  have hother : ∀ l, l ≠ lit "x" → l ≠ lit "y" → JsonValue.get material l = none := by
    intro l hx hy
    rw [Option.eq_none_iff_forall_ne_some]
    intro v hv
    rcases hnames _ (mem_of_get hv) with h | h
    · exact hx h
    · exact hy h
  have hget : ∀ l, JsonValue.get (jwkHead k entry.algorithm ++ (material ++ jwkTail role entry.revoked)) l =
      (JsonValue.get (jwkHead k entry.algorithm) l).or
        ((JsonValue.get material l).or (JsonValue.get (jwkTail role entry.revoked) l)) := by
    intro l
    simp only [JsonValue.get, List.lookup_append]
  generalize hjwk : jwkHead k entry.algorithm ++ (material ++ jwkTail role entry.revoked) = jwk at hpublic hget
  have hkid : JsonValue.get jwk (lit "kid") = some (.str k) := by rw [hget]; rfl
  have hd : JsonValue.get jwk (lit "d") = none := by
    rw [hget, hother _ (by decide) (by decide)]
    cases entry.revoked <;> rfl
  have hrole : JsonValue.get jwk ROLE_MEMBER = some (.str role.text) := by
    rw [hget, hother _ (by decide) (by decide)]
    rfl
  have hrevoked : JsonValue.get jwk REVOKED_MEMBER = if entry.revoked then some (.bool true) else none := by
    rw [hget, hother _ (by decide) (by decide)]
    cases entry.revoked <;> rfl
  have halgorithm : algorithmOf jwk = .ok entry.algorithm :=
    algorithmOf_eq _ (by rw [hget]; rfl) (by rw [hget]; rfl) (by rw [hget]; rfl)
  have hmaterial : jwkKey C jwk entry.algorithm = .ok entry.publicKey := by
    refine hkey jwk fun l v hv => ?_
    have hhead : JsonValue.get (jwkHead k entry.algorithm) l = none := by
      rcases hnames _ (mem_of_get hv) with h | h
      · have hl : l = lit "x" := h
        rw [hl]
        rfl
      · have hl : l = lit "y" := h
        rw [hl]
        rfl
    rw [hget, hhead, hv]
    rfl
  refine ⟨jwk, hpublic, ?_, ?_, ?_⟩
  · have hcheck : checkRevoked jwk = .ok () := by
      rw [checkRevoked, hrevoked]
      cases entry.revoked <;> rfl
    simp [publicKeyOf, kidOf, hd, hkid, hk, halgorithm, roleOf_eq hrole, hcheck, hmaterial, bind, Except.bind, pure, Except.pure]
  · simp [kidText, hkid]
  · rw [saysRevoked, hrevoked]
    cases entry.revoked <;> rfl

variable (C)

/-! ## The dictionary of a registry -/

/-- The entries of a registry, and their key_ids in the order they were registered. -/
structure KeyTable (role : KeyRole) where
  registry : KeyRegistry role
  ids : List Str
  nodup : ids.Nodup
  complete : ∀ k, k ∈ ids ↔ (registry.get k).isSome = true

namespace KeyTable

variable {role : KeyRole}

def empty : KeyTable role := ⟨.empty, [], List.nodup_nil, by simp [KeyRegistry.get, KeyRegistry.empty]⟩

/-- A dictionary keeps a key where it is, and takes a new one last. -/
def keep (ids : List Str) (k : Str) : List Str := if ids.contains k then ids else ids ++ [k]

theorem nodup_keep {ids : List Str} (h : ids.Nodup) (k : Str) : (keep ids k).Nodup := by
  unfold keep
  split
  · exact h
  · next hk =>
    have hk : k ∉ ids := fun hin => hk (List.contains_iff_mem.2 hin)
    exact List.nodup_append.2 ⟨h, List.nodup_singleton k, by simpa using fun a ha => ne_of_mem_of_not_mem ha hk⟩

theorem mem_keep {ids : List Str} {k a : Str} : a ∈ keep ids k ↔ a ∈ ids ∨ a = k := by
  unfold keep
  split
  · next hk => exact ⟨.inl, fun h => h.elim id fun h => h ▸ List.contains_iff_mem.1 hk⟩
  · simp

/-- A registration leaves exactly the key_ids there were, and its own. -/
theorem register_isSome {r r' : KeyRegistry role} {k : Str} {p : PublicKey} {a : SignatureAlgorithm}
    (h : r.register k p a = .ok r') (l : Str) : (r'.get l).isSome = true ↔ (r.get l).isSome = true ∨ l = k := by
  unfold KeyRegistry.register at h
  split at h
  · cases h
  · split at h
    · cases h
    · split at h
      · next existing hold =>
        split at h
        · cases h
        · cases h
          refine ⟨.inl, fun hl => hl.elim id ?_⟩
          rintro rfl
          simp [KeyRegistry.get, hold]
      · cases h
        by_cases hl : l = k
        · simp [KeyRegistry.get, hl]
        · simp [KeyRegistry.get, hl]

theorem revoke_isSome {r r' : KeyRegistry role} {k : Str} (h : r.revoke k = .ok r') (l : Str) :
    (r'.get l).isSome = true ↔ (r.get l).isSome = true := by
  unfold KeyRegistry.revoke at h
  split at h
  · cases h
  · next entry hold =>
    cases h
    by_cases hl : l = k
    · subst hl
      simp [KeyRegistry.get, hold]
    · simp [KeyRegistry.get, hl]

/-- `register`. -/
def register (k : Str) (p : PublicKey) (a : SignatureAlgorithm) (t : KeyTable role) : Checked (KeyTable role) :=
  match h : t.registry.register k p a with
  | .error e => .error e
  | .ok r => .ok ⟨r, keep t.ids k, nodup_keep t.nodup k, fun l => by rw [mem_keep, t.complete, register_isSome h]⟩

/-- `revoke`. -/
def revoke (k : Str) (t : KeyTable role) : Checked (KeyTable role) :=
  match h : t.registry.revoke k with
  | .error e => .error e
  | .ok r => .ok ⟨r, t.ids, t.nodup, fun l => by rw [t.complete, revoke_isSome h]⟩

theorem register_eq_ok {k : Str} {p : PublicKey} {a : SignatureAlgorithm} {t t' : KeyTable role}
    (h : t.register k p a = .ok t') : t.registry.register k p a = .ok t'.registry := by
  unfold register at h
  split at h
  · cases h
  · next hr =>
    cases h
    exact hr

theorem revoke_eq_ok {k : Str} {t t' : KeyTable role} (h : t.revoke k = .ok t') :
    t.registry.revoke k = .ok t'.registry := by
  unfold revoke at h
  split at h
  · cases h
  · next hr =>
    cases h
    exact hr

/-- A registration that the entries allow is made. -/
theorem exists_register {k : Str} {p : PublicKey} {a : SignatureAlgorithm} {t : KeyTable role} {r : KeyRegistry role}
    (h : t.registry.register k p a = .ok r) : ∃ t', t.register k p a = .ok t' := by
  unfold register
  split
  · next hr =>
    rw [h] at hr
    cases hr
  · exact ⟨_, rfl⟩

theorem exists_revoke {k : Str} {t : KeyTable role} {r : KeyRegistry role} (h : t.registry.revoke k = .ok r) :
    ∃ t', t.revoke k = .ok t' := by
  unfold revoke
  split
  · next hr =>
    rw [h] at hr
    cases hr
  · exact ⟨_, rfl⟩

/-- `sorted(self._keys.items())`. -/
def sortedItems (t : KeyTable role) : List (Str × RegisteredKey) :=
  (t.ids.insertionSort (· ≤ ·)).filterMap fun k => (t.registry.get k).map (k, ·)

/-- `to_jwks`. -/
def toJwks (t : KeyTable role) : Checked Json :=
  match t.sortedItems.mapM fun m => publicJwk C m.1 m.2 role with
  | .error e => .error e
  | .ok jwks => .ok (.obj [(lit "keys", .arr (jwks.map .obj))])

end KeyTable

/-! ## `load_jwks` -/

/-- A registry, and the rehearsal a method of it makes. -/
structure KeyTables (role : KeyRole) where
  self : KeyTable role
  rehearsal : KeyTable role

abbrev RegistryM (role : KeyRole) (α : Type) : Type := EStateM PyError (KeyTables role) α

def orRaise {role : KeyRole} {α : Type} : Checked α → RegistryM role α
  | .ok a => pure a
  | .error e => throw e

/-- `isinstance(key, dict)`. -/
def asObject : Json → Checked Members
  | .obj ms => .ok ms
  | _ => .error .valueError

/-- The members of a JWK Set (`l2/keys.py:229-235`). -/
def jwksOf : Json → Checked (List Members)
  | .obj ms =>
    match JsonValue.get ms (lit "keys") with
    | some (.arr vs) => vs.mapM asObject
    | _ => .error .valueError
  | _ => .error .valueError

section Load

variable {role : KeyRole}

/-- `if role is not self.role` (`l2/keys.py:238-243`). -/
def checkRole (role : KeyRole) (entry : JwkEntry) : Checked Unit :=
  if entry.role = role then .ok () else .error .valueError

/-- A method of the rehearsal. -/
def rehearse (f : KeyTable role → Checked (KeyTable role)) : RegistryM role Unit := do
  let s ← get
  let t ← orRaise (f s.rehearsal)
  set { s with rehearsal := t }

/-- The first pass (`l2/keys.py:250-252`). -/
def registerAll : List JwkEntry → RegistryM role Unit
  | [] => pure ()
  | e :: entries => do
    rehearse (KeyTable.register e.keyId e.publicKey e.algorithm)
    registerAll entries

/-- The second pass (`l2/keys.py:253-257`). -/
def revokeAll : List Members → RegistryM role Unit
  | [] => pure ()
  | jwk :: keys => do
    if saysRevoked jwk then rehearse (KeyTable.revoke (kidText jwk))
    revokeAll keys

/-- `load_jwks` (`l2/keys.py:213-258`). -/
def loadJwks (document : Json) : RegistryM role Unit := do
  let keys ← orRaise (jwksOf document)
  let entries ← orRaise (keys.mapM (publicKeyOf C))
  orRaise (entries.forM (checkRole role))
  modify fun s => { s with rehearsal := s.self }
  registerAll entries
  revokeAll keys
  modify fun s => { s with self := s.rehearsal }

end Load

/-! ## The calls of a registry -/

inductive RegistryCall
  | register (keyId : Str) (publicKey : PublicKey) (algorithm : SignatureAlgorithm)
  | revoke (keyId : Str)
  | loadJwks (document : Json)

/-- `self._keys`, changed in place. -/
def onSelf {role : KeyRole} (f : KeyTable role → Checked (KeyTable role)) : RegistryM role Unit := do
  let s ← get
  let t ← orRaise (f s.self)
  set { s with self := t }

def RegistryCall.method {role : KeyRole} : RegistryCall → RegistryM role Unit
  | .register k p a => onSelf (KeyTable.register k p a)
  | .revoke k => onSelf (KeyTable.revoke k)
  | .loadJwks document => AuditableMcp.loadJwks C document

/-- What a call leaves of the registry, and whether it raised. -/
def RegistryCall.on {role : KeyRole} (o : RegistryCall) (t : KeyTable role) : Checked Unit × KeyTable role :=
  match o.method C ⟨t, .empty⟩ with
  | .ok _ s => (.ok (), s.self)
  | .error e s => (.error e, s.self)

/-- A sequence of calls, each succeeding or raising. -/
def calls {role : KeyRole} (os : List RegistryCall) (t : KeyTable role) : KeyTable role :=
  os.foldl (fun t o => (o.on C t).2) t

end AuditableMcp
