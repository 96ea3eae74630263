import AuditableMcp.Codecs
import AuditableMcp.MalformedKeys
import AuditableMcp.Lib.JsonText
import AuditableMcp.Lib.Utf8
/-!
# `jwk_thumbprint` (`l2/jwk.py:220-247`)

| here | there |
| --- | --- |
| `asciiText` | a text as `json.dumps` writes it where it escapes what is not ASCII |
| `thumbprintMembers` | `_THUMBPRINT_MEMBERS`, whose names stand in the order `sort_keys` gives them |
| `jwkThumbprint` | `jwk_thumbprint` |

A thumbprint is of the text of the key's members. The decoder admits one text for the bytes and the key has one width for
each coordinate, so it is of the bytes; but `cryptography` takes a coordinate modulo the prime of the curve
(`KeyCodec.Reducing`), and `public_key_of` asks of a coordinate only its width. Two JWKs that write one point's
coordinates in two ways are one key with two thumbprints, and no other pair is (`thumbprints`).
-/
namespace AuditableMcp

open JsonValue

/-! ## The text -/

def unicodeEscape (n : Nat) : Str :=
  [92, 117, hexChar (n / 4096), hexChar (n / 256 % 16), hexChar (n / 16 % 16), hexChar (n % 16)]

def asciiChar (c : Nat) : Str :=
  if c < 127 then escChar c
  else if c < 0x10000 then unicodeEscape c
  else unicodeEscape (0xD800 + (c - 0x10000) / 1024) ++ unicodeEscape (0xDC00 + (c - 0x10000) % 1024)

def asciiText (s : Str) : Str := 34 :: (s.flatMap asciiChar ++ [34])

def textMember (m : Str × Str) : Str := asciiText m.1 ++ 58 :: asciiText m.2

def moreMembers : List (Str × Str) → Str
  | [] => [125]
  | m :: ms => 44 :: (textMember m ++ moreMembers ms)

/-- `json.dumps(members, separators=(',', ':'), sort_keys=True)`, of texts that stand in order. -/
def sortedText : List (Str × Str) → Str
  | [] => [123, 125]
  | m :: ms => 123 :: (textMember m ++ moreMembers ms)

def thumbprintMembers (jwk : Members) : Option (List Str) :=
  if hasText jwk (lit "kty") (lit "OKP") then some [lit "crv", lit "kty", lit "x"]
  else if hasText jwk (lit "kty") (lit "EC") then some [lit "crv", lit "kty", lit "x", lit "y"]
  else none

/-- A member that is a string, with its name. -/
def stringMember (jwk : Members) (member : Str) : Option (Str × Str) :=
  match JsonValue.get jwk member with
  | some (.str s) => some (member, s)
  | _ => none

/-- `b64url_encode` of the digest of a text. -/
def digestText (sha256 : ByteString → ByteString) (text : Str) : Checked Str :=
  match h : Utf8.encode text with
  | some encoded => .ok (b64urlEncode (sha256 ⟨encoded, Utf8.encode_lt h⟩).1)
  | none => .error .valueError

def jwkThumbprint (sha256 : ByteString → ByteString) (jwk : Members) : Checked Str := do
  let members ← orValueError (thumbprintMembers jwk)
  let texts ← orValueError (members.mapM (stringMember jwk))
  digestText sha256 (sortedText texts)

/-! ## What a key is -/

/-- `cryptography` gives back the bytes of an Ed25519 key, and the coordinates of a P-256 one modulo the prime. -/
structure KeyCodec.Reducing (C : KeyCodec) : Prop where
  raw_ofRaw : ∀ {b k}, C.ofRaw b = some k → C.raw k = b
  numbers_ofNumbers : ∀ {x y k}, C.ofNumbers x y = some k → C.numbers k = (x % P256_PRIME, y % P256_PRIME)

/-- The coordinates that a JWK of an elliptic-curve key writes. -/
def coordinatesOf (jwk : Members) : Option (Nat × Nat) :=
  if hasText jwk (lit "kty") (lit "EC") then do
    let x ← b64urlDecode (getNull jwk (lit "x"))
    let y ← b64urlDecode (getNull jwk (lit "y"))
    pure (fromBytes x, fromBytes y)
  else none

/-- The coordinates of two JWKs are of one point, and are not the same. -/
def Respelled (jwk jwk' : Members) : Prop :=
  ∃ c c', coordinatesOf jwk = some c ∧ coordinatesOf jwk' = some c' ∧ c.1 % P256_PRIME = c'.1 % P256_PRIME ∧
    c.2 % P256_PRIME = c'.2 % P256_PRIME ∧ c ≠ c'

/-- No coordinate reaches the prime. -/
def BelowPrime (jwk : Members) : Prop := ∀ c, coordinatesOf jwk = some c → c.1 < P256_PRIME ∧ c.2 < P256_PRIME

theorem BelowPrime.not_respelled {jwk jwk' : Members} (h : BelowPrime jwk) (h' : BelowPrime jwk') : ¬ Respelled jwk jwk' := by
  rintro ⟨c, c', hc, hc', hx, hy, hne⟩
  obtain ⟨hx₁, hy₁⟩ := h c hc
  obtain ⟨hx₂, hy₂⟩ := h' c' hc'
  rw [Nat.mod_eq_of_lt hx₁, Nat.mod_eq_of_lt hx₂] at hx
  rw [Nat.mod_eq_of_lt hy₁, Nat.mod_eq_of_lt hy₂] at hy
  exact hne (Prod.ext hx hy)

/-- The members a thumbprint is of. -/
def keyMembers (a : SignatureAlgorithm) (material : List Bytes) : List (Str × Str) :=
  [(lit "crv", a.crv), (lit "kty", a.kty)] ++ [lit "x", lit "y"].zip (material.map b64urlEncode)

/-- The key is of this material, 32 bytes each. -/
inductive MadeOf (C : KeyCodec) (publicKey : PublicKey) : SignatureAlgorithm → List Bytes → Prop
  | ed25519 {x : Bytes} (hx : x.length = 32 ∧ IsBytes x) (hkey : C.ofRaw x = some publicKey) : MadeOf C publicKey .ed25519 [x]
  | es256 {x y : Bytes} (hx : x.length = 32 ∧ IsBytes x) (hy : y.length = 32 ∧ IsBytes y)
      (hkey : C.ofNumbers (fromBytes x) (fromBytes y) = some publicKey) : MadeOf C publicKey .es256 [x, y]

theorem fromBytes_inj {a b : Bytes} (ha : IsBytes a) (hb : IsBytes b) (hlen : a.length = b.length) (h : fromBytes a = fromBytes b) :
    a = b := by
  induction a using List.reverseRecOn generalizing b with
  | nil => exact (List.length_eq_zero_iff.1 hlen.symm).symm
  | append_singleton a x ih =>
    rcases List.eq_nil_or_concat b with rfl | ⟨b, y, rfl⟩
    · simp at hlen
    · rw [List.concat_eq_append] at h hb hlen ⊢
      rw [fromBytes_concat, fromBytes_concat] at h
      have hx := ha x (by simp)
      have hy := hb y (by simp)
      have hrest : fromBytes a = fromBytes b := by omega
      have hlast : x = y := by omega
      rw [hlast, ih (fun c hc => ha c (by simp [hc])) (fun c hc => hb c (by simp [hc])) (by simpa using hlen) hrest]

variable {C : KeyCodec}

/-- The coordinates of a key's material, if it has any. -/
def pointOf : List Bytes → Option (Nat × Nat)
  | [x, y] => some (fromBytes x, fromBytes y)
  | _ => none

theorem MadeOf.es256_of_point {p : PublicKey} {a : SignatureAlgorithm} {m : List Bytes} (h : MadeOf C p a m) {c : Nat × Nat}
    (hc : pointOf m = some c) : a = .es256 := by
  cases h with
  | ed25519 => cases hc
  | es256 => rfl

/-- Two materials are of one point. -/
def Congruent (m m' : List Bytes) : Prop := m = m' ∨ ∃ c c', pointOf m = some c ∧ pointOf m' = some c' ∧
  c.1 % P256_PRIME = c'.1 % P256_PRIME ∧ c.2 % P256_PRIME = c'.2 % P256_PRIME

/-- Materials of one algorithm are of one key where they are the same, or of one point. -/
theorem MadeOf.publicKey_iff (hC : C.Lawful) (hreduces : C.Reducing) {p p' : PublicKey} {a : SignatureAlgorithm}
    {m m' : List Bytes} (h : MadeOf C p a m) (h' : MadeOf C p' a m') : p = p' ↔ Congruent m m' := by
  cases h with
  | @ed25519 x hx hkey =>
    cases h' with
    | @ed25519 x' hx' hkey' =>
      constructor
      · rintro rfl
        rw [← hreduces.raw_ofRaw hkey, ← hreduces.raw_ofRaw hkey']
        exact .inl rfl
      · rintro (heq | ⟨c, c', hc, _⟩)
        · obtain rfl := List.singleton_inj.1 heq
          exact Option.some.inj (hkey.symm.trans hkey')
        · cases hc
  | @es256 x y hx hy hkey =>
    cases h' with
    | @es256 x' y' hx' hy' hkey' =>
      have hnumbers := hreduces.numbers_ofNumbers hkey
      have hnumbers' := hreduces.numbers_ofNumbers hkey'
      constructor
      · rintro rfl
        obtain ⟨hxs, hys⟩ := Prod.mk.inj (hnumbers.symm.trans hnumbers')
        exact .inr ⟨_, _, rfl, rfl, hxs, hys⟩
      · intro hcongruent
        have hsame : C.numbers p = C.numbers p' := by
          rw [hnumbers, hnumbers']
          rcases hcongruent with heq | ⟨c, c', hc, hc', hxs, hys⟩
          · obtain ⟨rfl, rfl⟩ : x = x' ∧ y = y' := by simpa using heq
            rfl
          · cases hc
            cases hc'
            exact Prod.ext hxs hys
        obtain ⟨hgen, hsuited⟩ := hC.ofNumbers_genuine hkey
        obtain ⟨hgen', hsuited'⟩ := hC.ofNumbers_genuine hkey'
        obtain ⟨-, -, hread⟩ := hC.ofNumbers_numbers hgen hsuited
        obtain ⟨-, -, hread'⟩ := hC.ofNumbers_numbers hgen' hsuited'
        rw [hsame] at hread
        exact Option.some.inj (hread.symm.trans hread')

/-- Of one algorithm, the material is what the coordinates are. -/
theorem MadeOf.congruent_iff {p p' : PublicKey} {a : SignatureAlgorithm} {m m' : List Bytes} (h : MadeOf C p a m)
    (h' : MadeOf C p' a m') : (Congruent m m' → m = m') ↔ ¬ ∃ c c', pointOf m = some c ∧ pointOf m' = some c' ∧
      c.1 % P256_PRIME = c'.1 % P256_PRIME ∧ c.2 % P256_PRIME = c'.2 % P256_PRIME ∧ c ≠ c' := by
  have hone : ∀ c c', pointOf m = some c → pointOf m' = some c' → (c = c' ↔ m = m') := by
    intro c c' hc hc'
    cases h with
    | ed25519 => cases hc
    | @es256 x y hx hy =>
      cases h' with
      | @es256 x' y' hx' hy' =>
        cases hc
        cases hc'
        constructor
        · intro heq
          obtain ⟨hxs, hys⟩ := Prod.mk.inj heq
          rw [fromBytes_inj hx.2 hx'.2 (hx.1.trans hx'.1.symm) hxs, fromBytes_inj hy.2 hy'.2 (hy.1.trans hy'.1.symm) hys]
        · intro heq
          obtain ⟨rfl, rfl⟩ : x = x' ∧ y = y' := by simpa using heq
          rfl
  constructor
  · rintro hsame ⟨c, c', hc, hc', hx, hy, hne⟩
    exact hne ((hone c c' hc hc').2 (hsame (.inr ⟨c, c', hc, hc', hx, hy⟩)))
  · rintro hno (heq | ⟨c, c', hc, hc', hx, hy⟩)
    · exact heq
    · exact (hone c c' hc hc').1 (Classical.byContradiction fun hne => hno ⟨c, c', hc, hc', hx, hy, hne⟩)

/-! ## A text is of one key -/

theorem letter_plain (n : Nat) : asciiChar (letter '-' '_' n) = [letter '-' '_' n] := by
  have hA : 'A'.toNat = 65 := rfl
  have ha : 'a'.toNat = 97 := rfl
  have h0 : '0'.toNat = 48 := rfl
  have hd : '-'.toNat = 45 := rfl
  have hu : '_'.toNat = 95 := rfl
  have hplain : 44 < letter '-' '_' n ∧ letter '-' '_' n < 123 ∧ letter '-' '_' n ≠ 92 := by
    unfold letter
    split
    · omega
    split
    · omega
    split
    · omega
    split
    · omega
    · omega
  unfold asciiChar escChar
  grind

theorem asciiText_b64url (raw : Bytes) : asciiText (b64urlEncode raw) = 34 :: (b64urlEncode raw ++ [34]) := by
  have hflat : (b64urlEncode raw).flatMap asciiChar = b64urlEncode raw := by
    unfold b64urlEncode
    induction toSextets raw with
    | nil => rfl
    | cons n bits ih => rw [List.map_cons, List.flatMap_cons, letter_plain, ih, List.singleton_append]
  rw [asciiText, hflat]

theorem toSextets_card (raw : Bytes) : (toSextets raw).length = (raw.length * 4 + 2) / 3 := by
  fun_induction toSextets raw with
  | case1 a b c rest ih =>
    simp only [List.length_cons, ih]
    omega
  | case2 a b => simp
  | case3 a => simp
  | case4 => rfl

theorem b64urlEncode_length {raw : Bytes} (h : raw.length = 32) : (b64urlEncode raw).length = 43 := by
  rw [b64urlEncode, List.length_map, toSextets_card, h]

theorem sortedText_inj {p p' : PublicKey} {a a' : SignatureAlgorithm} {m m' : List Bytes} (h : MadeOf C p a m) (h' : MadeOf C p' a' m')
    (heq : sortedText (keyMembers a m) = sortedText (keyMembers a' m')) : a = a' ∧ m = m' := by
  -- The ninth character is the first of the curve's name.
  have hcurve : (sortedText (keyMembers a m))[8]? = (sortedText (keyMembers a' m'))[8]? := congrArg (·[8]?) heq
  cases h with
  | @ed25519 x hx hkey =>
    cases h' with
    | @ed25519 x' hx' hkey' =>
      simp only [keyMembers, List.map_cons, List.map_nil, List.zip_cons_cons, List.zip_nil_right, List.cons_append, List.nil_append,
        sortedText, moreMembers, textMember, asciiText_b64url] at heq
      simp only [List.append_cancel_left_eq, List.cons.injEq, true_and, List.append_assoc, List.append_cancel_right_eq, List.cons_append,
        List.nil_append] at heq
      rw [b64urlEncode_inj hx.2 hx'.2 heq]
      exact ⟨rfl, rfl⟩
    | @es256 x' y' hx' hy' hkey' =>
      have hchars : some 69 = some 80 := hcurve
      cases hchars
  | @es256 x y hx hy hkey =>
    cases h' with
    | @ed25519 x' hx' hkey' =>
      have hchars : some 80 = some 69 := hcurve
      cases hchars
    | @es256 x' y' hx' hy' hkey' =>
      simp only [keyMembers, List.map_cons, List.map_nil, List.zip_cons_cons, List.zip_nil_right, List.cons_append, List.nil_append,
        sortedText, moreMembers, textMember, asciiText_b64url] at heq
      simp only [List.append_cancel_left_eq, List.cons.injEq, true_and, List.append_assoc, List.cons_append,
        List.nil_append] at heq
      obtain ⟨hxs, hrest⟩ := List.append_inj heq ((b64urlEncode_length hx.1).trans (b64urlEncode_length hx'.1).symm)
      simp only [List.append_cancel_left_eq, List.cons.injEq, true_and] at hrest
      obtain ⟨hys, -⟩ := List.append_inj hrest ((b64urlEncode_length hy.1).trans (b64urlEncode_length hy'.1).symm)
      rw [b64urlEncode_inj hx.2 hx'.2 hxs, b64urlEncode_inj hy.2 hy'.2 hys]
      exact ⟨rfl, rfl⟩

/-! ## The thumbprint of a JWK that is read -/

theorem asciiChar_ascii {c : Nat} (h : c < 0x110000) : ∀ d ∈ asciiChar c, d < 128 := by
  have hhex : ∀ n < 16, hexChar n < 128 := by decide
  have hescape : ∀ n < 0x10000, ∀ d ∈ unicodeEscape n, d < 128 := by
    intro n hn d hd
    simp only [unicodeEscape, List.mem_cons, List.not_mem_nil, or_false] at hd
    rcases hd with rfl | rfl | rfl | rfl | rfl | rfl
    · decide
    · decide
    · exact hhex _ (by omega)
    · exact hhex _ (by omega)
    · exact hhex _ (by omega)
    · exact hhex _ (by omega)
  intro d hd
  unfold asciiChar at hd
  split at hd
  · have hplain : ∀ n < 128, decide (n < 128) = true := fun n hn => by simpa using hn
    have hc : decide (c < 128) = true := hplain c (by omega)
    simpa using escChar_all hplain hc d hd
  split at hd
  · exact hescape _ (by omega) d hd
  · rcases List.mem_append.1 hd with hd | hd
    · exact hescape _ (by omega) d hd
    · exact hescape _ (by omega) d hd

theorem asciiText_ascii {s : Str} (h : ∀ c ∈ s, c < 0x110000) : ∀ d ∈ asciiText s, d < 128 := by
  intro d hd
  simp only [asciiText, List.mem_cons, List.mem_append, List.mem_flatMap, List.not_mem_nil, or_false] at hd
  rcases hd with rfl | ⟨c, hc, hd⟩ | rfl
  · decide
  · exact asciiChar_ascii (h c hc) d hd
  · decide

theorem textMember_ascii {m : Str × Str} (h : (∀ c ∈ m.1, c < 0x110000) ∧ ∀ c ∈ m.2, c < 0x110000) : ∀ d ∈ textMember m, d < 128 := by
  intro d hd
  simp only [textMember, List.mem_append, List.mem_cons] at hd
  rcases hd with hd | rfl | hd
  · exact asciiText_ascii h.1 d hd
  · decide
  · exact asciiText_ascii h.2 d hd

theorem moreMembers_ascii {ms : List (Str × Str)} (h : ∀ m ∈ ms, (∀ c ∈ m.1, c < 0x110000) ∧ ∀ c ∈ m.2, c < 0x110000) :
    ∀ d ∈ moreMembers ms, d < 128 := by
  induction ms with
  | nil =>
    intro d hd
    obtain rfl := List.mem_singleton.1 hd
    decide
  | cons m ms ih =>
    intro d hd
    simp only [moreMembers, List.mem_append, List.mem_cons] at hd
    rcases hd with rfl | hd | hd
    · decide
    · exact textMember_ascii (h m List.mem_cons_self) d hd
    · exact ih (fun n hn => h n (List.mem_cons_of_mem m hn)) d hd

theorem sortedText_ascii {ms : List (Str × Str)} (h : ∀ m ∈ ms, (∀ c ∈ m.1, c < 0x110000) ∧ ∀ c ∈ m.2, c < 0x110000) :
    ∀ d ∈ sortedText ms, d < 128 := by
  cases ms with
  | nil => decide
  | cons m ms =>
    intro d hd
    simp only [sortedText, List.mem_append, List.mem_cons] at hd
    rcases hd with rfl | hd | hd
    · decide
    · exact textMember_ascii (h m List.mem_cons_self) d hd
    · exact moreMembers_ascii (fun n hn => h n (List.mem_cons_of_mem m hn)) d hd

/-- A digest is of one text. -/
theorem digestText_eq {sha256 : ByteString → ByteString} (hsha : Function.Injective sha256) {text text' u u' : Str}
    (h : digestText sha256 text = .ok u) (h' : digestText sha256 text' = .ok u') : u = u' ↔ text = text' := by
  unfold digestText at h h'
  split at h
  · next encoded hencoded =>
    split at h'
    · next encoded' hencoded' =>
      cases h
      cases h'
      constructor
      · intro heq
        have hdigest := hsha (Subtype.ext (b64urlEncode_inj (sha256 _).2 (sha256 _).2 heq))
        have hbytes : encoded = encoded' := congrArg Subtype.val hdigest
        have hread := Utf8.decode_encode hencoded
        rw [hbytes, Utf8.decode_encode hencoded'] at hread
        exact (Option.some.inj hread).symm
      · rintro rfl
        rw [hencoded] at hencoded'
        cases hencoded'
        rfl
    · cases h'
  · cases h

theorem digestText_ascii (sha256 : ByteString → ByteString) {text : Str} (h : ∀ c ∈ text, c < 128) :
    ∃ u, digestText sha256 text = .ok u := by
  unfold digestText
  split
  · exact ⟨_, rfl⟩
  · next hnone =>
    rw [Utf8.encode_ascii h] at hnone
    cases hnone

theorem bytesOf_spec {jwk : Members} {member : Str} {raw : Bytes} (h : bytesOf jwk member = .ok raw) :
    (raw.length = 32 ∧ IsBytes raw) ∧ JsonValue.get jwk member = some (.str (b64urlEncode raw)) := by
  unfold bytesOf at h
  split at h
  · cases h
  · next read hread =>
    split at h
    · next hlen =>
      cases h
      obtain ⟨hbytes, hvalue⟩ := b64urlDecode_sound hread
      refine ⟨⟨hlen, hbytes⟩, ?_⟩
      unfold getNull at hvalue
      cases hget : JsonValue.get jwk member with
      | none =>
        rw [hget] at hvalue
        cases hvalue
      | some v =>
        rw [hget] at hvalue
        exact congrArg some hvalue
    · cases h

theorem decode_of_bytesOf {jwk : Members} {member : Str} {raw : Bytes} (h : bytesOf jwk member = .ok raw) :
    b64urlDecode (getNull jwk member) = some raw := by
  obtain ⟨⟨-, hbytes⟩, hget⟩ := bytesOf_spec h
  rw [getNull, hget, Option.getD_some]
  exact b64urlDecode_encode hbytes

/-- The members of a JWK that is read, the material of its key, and its coordinates. -/
theorem thumbprint_members (sha256 : ByteString → ByteString) {jwk : Members} {e : JwkEntry} (h : publicKeyOf C jwk = .ok e) :
    ∃ m, MadeOf C e.publicKey e.algorithm m ∧ coordinatesOf jwk = pointOf m ∧
      jwkThumbprint sha256 jwk = digestText sha256 (sortedText (keyMembers e.algorithm m)) := by
  obtain ⟨a, halgorithm, hkty, hcrv⟩ : ∃ a, e.algorithm = a ∧ JsonValue.get jwk (lit "kty") = some (.str a.kty) ∧
      JsonValue.get jwk (lit "crv") = some (.str a.crv) := by
    obtain ⟨k, -, h⟩ := bind_eq_ok.1 h
    obtain ⟨a, ha, h⟩ := bind_eq_ok.1 h
    obtain ⟨role, -, h⟩ := bind_eq_ok.1 h
    obtain ⟨-, -, h⟩ := bind_eq_ok.1 h
    obtain ⟨p, -, h⟩ := bind_eq_ok.1 h
    obtain rfl := pure_eq_ok.1 h
    rcases named_algorithm jwk with ⟨b, hkty, hcrv, hb⟩ | ⟨-, hb⟩
    · rw [hb] at ha
      refine ⟨b, ?_, hkty, hcrv⟩
      split at ha
      · exact (Except.ok.inj ha).symm
      · split at ha
        · cases ha
        split at ha
        · exact (Except.ok.inj ha).symm
        · cases ha
    · rw [hb] at ha
      cases ha
  obtain ⟨-, -, hkey⟩ := publicKeyOf_spec h
  have hor : ∀ {o : Option PublicKey}, orValueError o = .ok e.publicKey → o = some e.publicKey := by
    intro o ho
    cases o with
    | none => cases ho
    | some q => exact congrArg some (Except.ok.inj ho)
  rw [halgorithm] at hkey ⊢
  cases a with
  | ed25519 =>
    obtain ⟨x, hx, hkey⟩ := bind_eq_ok.1 hkey
    obtain ⟨hlen, hxget⟩ := bytesOf_spec hx
    have hother : ¬ hasText jwk (lit "kty") (lit "EC") = true := by
      rw [hasText_iff, hkty]
      decide
    refine ⟨[x], .ed25519 hlen (hor hkey), if_neg hother, ?_⟩
    have hmembers : thumbprintMembers jwk = some [lit "crv", lit "kty", lit "x"] := if_pos (hasText_iff.2 hkty)
    have htexts : [lit "crv", lit "kty", lit "x"].mapM (stringMember jwk) = some (keyMembers .ed25519 [x]) := by
      simp [stringMember, hkty, hcrv, hxget, keyMembers]
    rw [jwkThumbprint, hmembers]
    change orValueError ([lit "crv", lit "kty", lit "x"].mapM (stringMember jwk)) >>= _ = _
    rw [htexts]
    rfl
  | es256 =>
    obtain ⟨x, hx, hkey⟩ := bind_eq_ok.1 hkey
    obtain ⟨y, hy, hkey⟩ := bind_eq_ok.1 hkey
    obtain ⟨hxlen, hxget⟩ := bytesOf_spec hx
    obtain ⟨hylen, hyget⟩ := bytesOf_spec hy
    have hec : hasText jwk (lit "kty") (lit "EC") = true := hasText_iff.2 hkty
    have hcoordinates : coordinatesOf jwk = pointOf [x, y] := by
      rw [coordinatesOf, if_pos hec, decode_of_bytesOf hx, decode_of_bytesOf hy]
      rfl
    refine ⟨[x, y], .es256 hxlen hylen (hor hkey), hcoordinates, ?_⟩
    have hother : ¬ hasText jwk (lit "kty") (lit "OKP") = true := by
      rw [hasText_iff, hkty]
      decide
    have hmembers : thumbprintMembers jwk = some [lit "crv", lit "kty", lit "x", lit "y"] :=
      (if_neg hother).trans (if_pos (hasText_iff.2 hkty))
    have htexts : [lit "crv", lit "kty", lit "x", lit "y"].mapM (stringMember jwk) = some (keyMembers .es256 [x, y]) := by
      simp [stringMember, hkty, hcrv, hxget, hyget, keyMembers]
    rw [jwkThumbprint, hmembers]
    change orValueError ([lit "crv", lit "kty", lit "x", lit "y"].mapM (stringMember jwk)) >>= _ = _
    rw [htexts]
    rfl

theorem keyMembers_text {p : PublicKey} {a : SignatureAlgorithm} {m : List Bytes} (h : MadeOf C p a m) :
    ∀ n ∈ keyMembers a m, (∀ c ∈ n.1, c < 0x110000) ∧ ∀ c ∈ n.2, c < 0x110000 := by
  have hletters : ∀ raw : Bytes, ∀ c ∈ b64urlEncode raw, c < 0x110000 := by
    intro raw c hc
    obtain ⟨n, -, rfl⟩ := List.mem_map.1 hc
    have hn := letter_ascii n
    omega
  have hnames : (∀ c ∈ lit "crv", c < 0x110000) ∧ (∀ c ∈ lit "kty", c < 0x110000) ∧ (∀ c ∈ lit "x", c < 0x110000) ∧
      ∀ c ∈ lit "y", c < 0x110000 := by decide
  have halgorithm : (∀ c ∈ a.crv, c < 0x110000) ∧ ∀ c ∈ a.kty, c < 0x110000 := by
    cases a with
    | ed25519 => decide
    | es256 => decide
  intro n hn
  cases h with
  | ed25519 =>
    simp only [keyMembers, List.map_cons, List.map_nil, List.zip_cons_cons, List.zip_nil_right, List.cons_append, List.nil_append,
      List.mem_cons, List.not_mem_nil, or_false] at hn
    rcases hn with rfl | rfl | rfl
    · exact ⟨hnames.1, halgorithm.1⟩
    · exact ⟨hnames.2.1, halgorithm.2⟩
    · exact ⟨hnames.2.2.1, hletters _⟩
  | es256 =>
    simp only [keyMembers, List.map_cons, List.map_nil, List.zip_cons_cons, List.zip_nil_right, List.cons_append, List.nil_append,
      List.mem_cons, List.not_mem_nil, or_false] at hn
    rcases hn with rfl | rfl | rfl | rfl
    · exact ⟨hnames.1, halgorithm.1⟩
    · exact ⟨hnames.2.1, halgorithm.2⟩
    · exact ⟨hnames.2.2.1, hletters _⟩
    · exact ⟨hnames.2.2.2, hletters _⟩

/-- Of two JWKs that are read, the thumbprints are equal exactly where the keys are, unless they write one point's
coordinates in two ways, which they do not below the prime; and a key that is written is read as it was. -/
theorem thumbprints (hC : C.Lawful) (hreduces : C.Reducing) {sha256 : ByteString → ByteString} (hsha : Function.Injective sha256) :
    (∀ jwk jwk' e e', publicKeyOf C jwk = .ok e → publicKeyOf C jwk' = .ok e' →
      ∃ t t', jwkThumbprint sha256 jwk = .ok t ∧ jwkThumbprint sha256 jwk' = .ok t' ∧
        ((t = t' ↔ e.algorithm = e'.algorithm ∧ e.publicKey = e'.publicKey) ↔ ¬ Respelled jwk jwk')) ∧
    (∀ jwk jwk', BelowPrime jwk → BelowPrime jwk' → ¬ Respelled jwk jwk') ∧
    (∀ (k : Str) (entry : RegisteredKey) (role : KeyRole), k ≠ [] → isKeyOf entry.publicKey entry.algorithm = true →
      C.genuine entry.publicKey → ∃ jwk, publicJwk C k entry role = .ok jwk ∧
        publicKeyOf C jwk = .ok ⟨k, entry.publicKey, entry.algorithm, role⟩) := by
  refine ⟨fun jwk jwk' e e' h h' => ?_, fun _ _ => BelowPrime.not_respelled, fun k entry role hk hsuited hgen => ?_⟩
  · obtain ⟨m, hm, hcoordinates, hthumb⟩ := thumbprint_members sha256 h
    obtain ⟨m', hm', hcoordinates', hthumb'⟩ := thumbprint_members sha256 h'
    obtain ⟨t, ht⟩ := digestText_ascii sha256 (sortedText_ascii (keyMembers_text hm))
    obtain ⟨t', ht'⟩ := digestText_ascii sha256 (sortedText_ascii (keyMembers_text hm'))
    refine ⟨t, t', hthumb.trans ht, hthumb'.trans ht', ?_⟩
    have htexts : t = t' ↔ e.algorithm = e'.algorithm ∧ m = m' := by
      rw [digestText_eq hsha ht ht']
      exact ⟨sortedText_inj hm hm', fun ⟨ha, hmaterial⟩ => by rw [ha, hmaterial]⟩
    rw [htexts, Respelled, hcoordinates, hcoordinates']
    by_cases ha : e.algorithm = e'.algorithm
    · rw [← ha] at hm'
      rw [← hm.congruent_iff hm', hm.publicKey_iff hC hreduces hm']
      simp only [ha, true_and]
      exact ⟨fun hiff hc => hiff.2 hc, fun hsame => ⟨fun heq => .inl heq, hsame⟩⟩
    · refine iff_of_true (by simp only [ha, false_and]) ?_
      rintro ⟨c, c', hc, hc', -⟩
      exact ha ((hm.es256_of_point hc).trans (hm'.es256_of_point hc').symm)
  · obtain ⟨jwk, hjwk, hread, -, -⟩ := publicKeyOf_publicJwk hC role hk hsuited hgen
    exact ⟨jwk, hjwk, hread⟩

theorem derCodec_reducing : derCodec.Reducing where
  raw_ofRaw := by
    intro b k h
    obtain ⟨-, rfl⟩ : (b.length = 32 ∧ ∀ n ∈ b, n < 256) ∧ PublicKey.ed25519 (ED25519_DER ++ b) = k := by simpa [derCodec] using h
    rfl
  numbers_ofNumbers := fun h => (pointKey_spec h).2.1

/-- A JWK of a point whose abscissa is 5. -/
def pointJwk (x : Str) : Members :=
  [(lit "kid", .str (lit "tool-1")), (lit "kty", .str (lit "EC")), (lit "crv", .str (lit "P-256")), (lit "x", .str x),
    (lit "y", .str (lit "RZJDuapYGAb-kTvOmYF63hHKUDxk2aPFM0FcCDJI-8w")), (ROLE_MEMBER, .str (lit "tool"))]

def FIVE : Str := lit "AAAAAAAAAAAAAAAAAAAAAAAAAAAAAAAAAAAAAAAAAAU"
def FIVE_OVER_PRIME : Str := lit "_____wAAAAEAAAAAAAAAAAAAAAEAAAAAAAAAAAAAAAQ"

theorem ok_of_isOk {α : Type} {x : Checked α} (h : x.isOk = true) : ∃ a, x = .ok a := by
  cases x with
  | ok a => exact ⟨a, rfl⟩
  | error e => cases h

/-- A tool's Ed25519 key, the same key revoked under another name, and a P-256 key below the prime: the first two have one
thumbprint, and the third another. -/
theorem thumbprints_three : ∃ jwk jwk' t t', publicJwk derCodec (lit "tool-1") ⟨.ed25519, SAMPLE_KEY, false⟩ .tool = .ok jwk ∧
    publicJwk derCodec (lit "host-2") ⟨.ed25519, SAMPLE_KEY, true⟩ .host = .ok jwk' ∧
    jwkThumbprint id jwk = .ok t ∧ jwkThumbprint id jwk' = .ok t ∧ jwkThumbprint id (pointJwk FIVE) = .ok t' ∧ t ≠ t' := by
  have hid : Function.Injective (id : ByteString → ByteString) := Function.injective_id
  obtain ⟨hequal, hbelow, hread⟩ := thumbprints derCodec_lawful derCodec_reducing hid
  have hgen : derCodec.genuine SAMPLE_KEY := .inl ⟨_, by decide, by unfold IsBytes; decide, rfl⟩
  obtain ⟨jwk, hjwk, hof⟩ := hread (lit "tool-1") ⟨.ed25519, SAMPLE_KEY, false⟩ .tool (by decide) rfl hgen
  obtain ⟨jwk', hjwk', hof'⟩ := hread (lit "host-2") ⟨.ed25519, SAMPLE_KEY, true⟩ .host (by decide) rfl hgen
  obtain ⟨e, he⟩ := ok_of_isOk (x := publicKeyOf derCodec (pointJwk FIVE)) (by decide)
  have hfields : ∀ e ∈ (publicKeyOf derCodec (pointJwk FIVE)).toOption, e.algorithm = .es256 := by decide
  -- an Ed25519 JWK has no coordinates, and those of the third are below the prime
  have hcoordinates : coordinatesOf jwk = none ∧ coordinatesOf jwk' = none := by
    obtain rfl := Except.ok.inj (hjwk.symm.trans rfl)
    obtain rfl := Except.ok.inj (hjwk'.symm.trans rfl)
    exact ⟨rfl, rfl⟩
  have hbelowJwk : BelowPrime jwk := fun c hc => by rw [hcoordinates.1] at hc; cases hc
  have hbelowJwk' : BelowPrime jwk' := fun c hc => by rw [hcoordinates.2] at hc; cases hc
  have hbelowPoint : BelowPrime (pointJwk FIVE) := fun c hc => by
    have hall : ∀ c ∈ coordinatesOf (pointJwk FIVE), c.1 < P256_PRIME ∧ c.2 < P256_PRIME := by decide
    exact hall c hc
  obtain ⟨t, t₁, ht, ht₁, heq⟩ := hequal jwk jwk' _ _ hof hof'
  obtain ⟨t₂, t', ht₂, ht', hne⟩ := hequal jwk (pointJwk FIVE) _ _ hof he
  obtain rfl := (heq.2 (hbelow _ _ hbelowJwk hbelowJwk')).2 ⟨rfl, rfl⟩
  obtain rfl := Except.ok.inj (ht.symm.trans ht₂)
  refine ⟨jwk, jwk', t, t', hjwk, hjwk', ht, ht₁, ht', fun h => ?_⟩
  have halgorithm := ((hne.2 (hbelow _ _ hbelowJwk hbelowPoint)).1 h).1
  rw [hfields e (by rw [he]; rfl)] at halgorithm
  cases halgorithm

/-- The abscissa 5 and 5 plus the prime, 32 bytes each: both are read, as one key, and there are two thumbprints. -/
theorem one_key_two_thumbprints : ∃ e e' t t', publicKeyOf derCodec (pointJwk FIVE) = .ok e ∧
    publicKeyOf derCodec (pointJwk FIVE_OVER_PRIME) = .ok e' ∧ jwkThumbprint id (pointJwk FIVE) = .ok t ∧
    jwkThumbprint id (pointJwk FIVE_OVER_PRIME) = .ok t' ∧
    ¬ (t = t' ↔ e.algorithm = e'.algorithm ∧ e.publicKey = e'.publicKey) := by
  have hsame : publicKeyOf derCodec (pointJwk FIVE_OVER_PRIME) = publicKeyOf derCodec (pointJwk FIVE) := by decide +kernel
  have hdiffer : jwkThumbprint id (pointJwk FIVE) ≠ jwkThumbprint id (pointJwk FIVE_OVER_PRIME) := by decide
  obtain ⟨e, he⟩ := ok_of_isOk (x := publicKeyOf derCodec (pointJwk FIVE)) (by decide)
  obtain ⟨t, ht⟩ := ok_of_isOk (x := jwkThumbprint id (pointJwk FIVE)) (by decide)
  obtain ⟨t', ht'⟩ := ok_of_isOk (x := jwkThumbprint id (pointJwk FIVE_OVER_PRIME)) (by decide)
  refine ⟨e, e, t, t', he, hsame.trans he, ht, ht', fun h => hdiffer ?_⟩
  rw [ht, ht', h.2 ⟨rfl, rfl⟩]

end AuditableMcp
