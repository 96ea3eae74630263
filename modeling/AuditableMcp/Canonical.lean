import AuditableMcp.Vocabulary
/-!
# `canonical.py` and `hashing.py`: the canonicalization domain and the record hash

A `CanonicalizationError` is an `Except.error` with its message. `rfc8785` itself raises only for what
the two guards exclude (`canonical.py:120-130`), so `World.dumps` is total on what passes them.
-/
namespace AuditableMcp

open JsonValue

/-! ## The domain -/

/-- `MAX_SAFE_INTEGER` (`canonical.py:18`). -/
def MAX_SAFE_INTEGER : Nat := 9007199254740991

def isSurrogate (n : Nat) : Bool := 0xD800 ≤ n && n ≤ 0xDFFF

mutual

/-- `has_unsafe_number` (`canonical.py:34-65`). -/
def hasUnsafeNumber : Json → Bool
  | .int i => i.natAbs > MAX_SAFE_INTEGER
  | .float .nan => true
  | .float (.inf _) => true
  | .float (.fin q) => q.den = 1 && q.num.natAbs > MAX_SAFE_INTEGER
  | .arr xs => hasUnsafeNumberList xs
  | .obj ms => hasUnsafeNumberMembers ms
  | .null => false
  | .bool _ => false
  | .str _ => false

def hasUnsafeNumberList : List Json → Bool
  | [] => false
  | x :: xs => hasUnsafeNumber x || hasUnsafeNumberList xs

def hasUnsafeNumberMembers : Members → Bool
  | [] => false
  | (_, v) :: ms => hasUnsafeNumber v || hasUnsafeNumberMembers ms

end

mutual

/-- `has_lone_surrogate` (`canonical.py:69-87`). -/
def hasLoneSurrogate : Json → Bool
  | .str s => s.any isSurrogate
  | .arr xs => hasLoneSurrogateList xs
  | .obj ms => hasLoneSurrogateMembers ms
  | .null => false
  | .bool _ => false
  | .int _ => false
  | .float _ => false

def hasLoneSurrogateList : List Json → Bool
  | [] => false
  | x :: xs => hasLoneSurrogate x || hasLoneSurrogateList xs

def hasLoneSurrogateMembers : Members → Bool
  | [] => false
  | (k, v) :: ms => k.any isSurrogate || hasLoneSurrogate v || hasLoneSurrogateMembers ms

end

/-- `outside_canonical_domain` (`canonical.py:91-103`). -/
def outsideCanonicalDomain (v : Json) : Bool := hasUnsafeNumber v || hasLoneSurrogate v

/-- A value inside the canonicalization domain. -/
def InDomain (v : Json) : Prop := outsideCanonicalDomain v = false

instance (v : Json) : Decidable (InDomain v) := inferInstanceAs (Decidable (_ = _))

/-- The part of an object in the domain that its members are in (`canonical.py:59-64`, `:81-86`). -/
theorem inDomain_obj {ms : Members} : InDomain (.obj ms) ↔
    ∀ m ∈ ms, m.1.any isSurrogate = false ∧ InDomain m.2 := by
  induction ms with
  | nil => simp [InDomain, outsideCanonicalDomain, hasUnsafeNumber, hasUnsafeNumberMembers,
      hasLoneSurrogate, hasLoneSurrogateMembers]
  | cons m ms ih =>
    obtain ⟨k, v⟩ := m
    rw [List.forall_mem_cons, ← ih]
    simp only [InDomain, outsideCanonicalDomain, hasUnsafeNumber, hasUnsafeNumberMembers,
      hasLoneSurrogate, hasLoneSurrogateMembers, Bool.or_eq_false_iff]
    tauto

theorem inDomain_str {s : Str} : InDomain (.str s) ↔ s.any isSurrogate = false := by
  simp [InDomain, outsideCanonicalDomain, hasUnsafeNumber, hasLoneSurrogate]

theorem inDomain_int {i : Int} : InDomain (.int i) ↔ i.natAbs ≤ MAX_SAFE_INTEGER := by
  simp [InDomain, outsideCanonicalDomain, hasUnsafeNumber, hasLoneSurrogate]

variable (W : World)

/-- `canonicalize` (`canonical.py:107-130`). -/
def canonicalize (v : Json) : Except Str Str :=
  if hasUnsafeNumber v then
    .error (lit "a numeric value is not canonicalizable (non-finite or outside ±(2^53-1)) (§8.1)")
  else if hasLoneSurrogate v then
    .error (lit "a string holds a lone surrogate, which JCS cannot serialize (§8.1)")
  else .ok (W.dumps v)

variable {W}

theorem canonicalize_ok {v : Json} (h : InDomain v) : canonicalize W v = .ok (W.dumps v) := by
  simp only [InDomain, outsideCanonicalDomain, Bool.or_eq_false_iff] at h
  simp [canonicalize, h.1, h.2]

theorem canonicalize_eq_ok {v : Json} {t : Str} :
    canonicalize W v = .ok t ↔ InDomain v ∧ t = W.dumps v := by
  constructor
  · intro h
    unfold canonicalize at h
    split at h
    · cases h
    · split at h
      · cases h
      · next hu hs => cases h; exact ⟨by simp [InDomain, outsideCanonicalDomain, hu, hs], rfl⟩
  · rintro ⟨h, rfl⟩; exact canonicalize_ok h

/-! ## Hashes -/

variable (W)

/-- `sha256_hex` of a canonical form (`canonical.py:135-137`). -/
def hashOf (v : Json) : Str := W.sha256 (W.dumps v)

/-- `GENESIS_HASH` (`hashing.py:12`). -/
def GENESIS_HASH : Str := List.replicate 64 '0'.toNat

/-- The §8.2 preimage (`hashing.py:60`). -/
def preimage (event seq hostTs previousHash : Json) : Json :=
  .obj [(lit "event", event), (lit "host_ts", hostTs), (lit "previous_hash", previousHash), (lit "seq", seq)]

/-- `compute_record_hash` (`hashing.py:44-61`). -/
def computeRecordHash (event seq hostTs previousHash : Json) : Except Str Str :=
  (canonicalize W (preimage event seq hostTs previousHash)).map W.sha256

/-- `countersignature_payload` (`hashing.py:15-40`); the bytes are named by their text. -/
def countersignaturePayload (seq hostTs logId previousHash recordHash : Json) : Except Str Str :=
  canonicalize W (.obj [(lit "host_ts", hostTs), (lit "log_id", logId), (lit "previous_hash", previousHash),
    (lit "record_hash", recordHash), (lit "seq", seq)])

variable {W}

theorem inDomain_preimage {e s t p : Json} :
    InDomain (preimage e s t p) ↔ InDomain e ∧ InDomain t ∧ InDomain p ∧ InDomain s := by
  have hk : (lit "event").any isSurrogate = false ∧ (lit "host_ts").any isSurrogate = false ∧
      (lit "previous_hash").any isSurrogate = false ∧ (lit "seq").any isSurrogate = false := by decide
  simp [preimage, inDomain_obj, hk, -List.any_eq_false]

theorem normForm_preimage (e s t p : Json) :
    normForm (preimage e s t p) = preimage (normForm e) (normForm s) (normForm t) (normForm p) := by
  have h1 : ∀ a b c d : Json, sortMembers [(lit "event", a), (lit "host_ts", b), (lit "previous_hash", c),
      (lit "seq", d)] = [(lit "event", a), (lit "host_ts", b), (lit "previous_hash", c), (lit "seq", d)] := by
    intro a b c d
    have e1 : lit "event" ≤ lit "host_ts" := by decide
    have e2 : lit "host_ts" ≤ lit "previous_hash" := by decide
    have e3 : lit "previous_hash" ≤ lit "seq" := by decide
    simp [sortMembers, List.insertionSort, e1, e2, e3]
  simp [preimage, normForm, normMembers, h1]

/-- Two equal preimages agree member by member. -/
theorem jsonEq_preimage {e s t p e' s' t' p' : Json} :
    JsonEq (preimage e s t p) (preimage e' s' t' p') ↔
      JsonEq e e' ∧ JsonEq s s' ∧ JsonEq t t' ∧ JsonEq p p' := by
  simp only [JsonEq, normForm_preimage]
  simp only [preimage, Json.obj.injEq, List.cons.injEq, Prod.mk.injEq, true_and, and_true]
  tauto

theorem computeRecordHash_eq_ok {e s t p : Json} {h : Str} :
    computeRecordHash W e s t p = .ok h ↔
      InDomain (preimage e s t p) ∧ h = hashOf W (preimage e s t p) := by
  unfold computeRecordHash hashOf
  cases hc : canonicalize W (preimage e s t p) with
  | ok x =>
    obtain ⟨hd, rfl⟩ := canonicalize_eq_ok.1 hc
    simp [Except.map, hd, eq_comm]
  | error x =>
    have hd : ¬ InDomain (preimage e s t p) := fun hd => by rw [canonicalize_ok hd] at hc; cases hc
    simp [Except.map, hd]

theorem countersignaturePayload_ok_iff {seq ts log prev hash : Json} :
    (∃ p, countersignaturePayload W seq ts log prev hash = .ok p) ↔
      InDomain ts ∧ InDomain log ∧ InDomain prev ∧ InDomain hash ∧ InDomain seq := by
  have hk : (lit "host_ts").any isSurrogate = false ∧ (lit "log_id").any isSurrogate = false ∧
      (lit "previous_hash").any isSurrogate = false ∧ (lit "record_hash").any isSurrogate = false ∧
      (lit "seq").any isSurrogate = false := by decide
  have hdom : InDomain (.obj [(lit "host_ts", ts), (lit "log_id", log), (lit "previous_hash", prev),
      (lit "record_hash", hash), (lit "seq", seq)]) ↔
        InDomain ts ∧ InDomain log ∧ InDomain prev ∧ InDomain hash ∧ InDomain seq := by
    simp [inDomain_obj, hk, -List.any_eq_false]
  rw [← hdom]
  constructor
  · rintro ⟨p, hp⟩
    exact (canonicalize_eq_ok.1 hp).1
  · exact fun h => ⟨_, canonicalize_ok h⟩

end AuditableMcp
