import AuditableMcp.KeyLifetime
/-!
# What a malformed key set raises (`l2/jwk.py:139-215`, `l2/keys.py:213-258`)

`public_key_of` and `load_jwks` say that what is malformed is a `ValueError`. The `alg` of a JWK is looked up in a set
before its type is checked, so an array or an object there is a `TypeError` (`malformed_keys`), and nothing else is.
-/
namespace AuditableMcp

open JsonValue

variable {C : KeyCodec}

/-- A call that succeeds or raises `ValueError`. -/
def ValueErrorOnly {α : Type} (x : Checked α) : Prop := ∀ e, x = .error e → e = .valueError

/-- The JWK passes what is checked before its `alg`, which is an array or an object. -/
structure UnhashableAlg (jwk : Members) : Prop where
  noPrivate : JsonValue.get jwk (lit "d") = none
  kid : ∃ k, JsonValue.get jwk (lit "kid") = some (.str k) ∧ k ≠ []
  named : ∃ a : SignatureAlgorithm, JsonValue.get jwk (lit "kty") = some (.str a.kty) ∧
    JsonValue.get jwk (lit "crv") = some (.str a.crv)
  alg : ∃ v, JsonValue.get jwk (lit "alg") = some v ∧ v.hashable = false

/-! ## `ValueError`s only -/

theorem valueErrorOnly_ok {α : Type} (a : α) : ValueErrorOnly (.ok a : Checked α) := by rintro _ ⟨⟩

theorem valueErrorOnly_error {α : Type} : ValueErrorOnly (.error .valueError : Checked α) := by
  rintro _ ⟨⟩
  rfl

theorem ValueErrorOnly.bind {α β : Type} {x : Checked α} {f : α → Checked β} (hx : ValueErrorOnly x)
    (hf : ∀ a, x = .ok a → ValueErrorOnly (f a)) : ValueErrorOnly (x >>= f) := by
  cases x with
  | error e =>
    obtain rfl := hx e rfl
    exact valueErrorOnly_error
  | ok a => exact hf a rfl

theorem valueErrorOnly_kidOf (jwk : Members) : ValueErrorOnly (kidOf jwk) := by
  unfold kidOf
  split
  · split
    · exact valueErrorOnly_error
    · exact valueErrorOnly_ok _
  · exact valueErrorOnly_error

theorem valueErrorOnly_roleOf (jwk : Members) : ValueErrorOnly (roleOf jwk) := by
  unfold roleOf
  split
  · exact valueErrorOnly_ok _
  · exact valueErrorOnly_error

theorem valueErrorOnly_checkRevoked (jwk : Members) : ValueErrorOnly (checkRevoked jwk) := by
  unfold checkRevoked
  split
  · exact valueErrorOnly_ok _
  · exact valueErrorOnly_ok _
  · exact valueErrorOnly_error

theorem valueErrorOnly_bytesOf (jwk : Members) (member : Str) : ValueErrorOnly (bytesOf jwk member) := by
  unfold bytesOf
  split
  · exact valueErrorOnly_error
  · split
    · exact valueErrorOnly_ok _
    · exact valueErrorOnly_error

theorem valueErrorOnly_orValueError {α : Type} (a : Option α) : ValueErrorOnly (orValueError a) := by
  cases a with
  | none => exact valueErrorOnly_error
  | some a => exact valueErrorOnly_ok a

theorem valueErrorOnly_jwkKey (jwk : Members) (a : SignatureAlgorithm) : ValueErrorOnly (jwkKey C jwk a) := by
  cases a with
  | ed25519 => exact ValueErrorOnly.bind (valueErrorOnly_bytesOf _ _) fun _ _ => valueErrorOnly_orValueError _
  | es256 =>
    exact ValueErrorOnly.bind (valueErrorOnly_bytesOf _ _) fun _ _ =>
      ValueErrorOnly.bind (valueErrorOnly_bytesOf _ _) fun _ _ => valueErrorOnly_orValueError _

/-! ## One JWK -/

/-- The algorithm a JWK's `kty` and `crv` name, where they name one. -/
theorem named_algorithm (jwk : Members) :
    (∃ a : SignatureAlgorithm, JsonValue.get jwk (lit "kty") = some (.str a.kty) ∧ JsonValue.get jwk (lit "crv") = some (.str a.crv) ∧
      algorithmOf jwk = match JsonValue.get jwk (lit "alg") with
        | none => .ok a
        | some v => if v.hashable = false then .error .typeError else if v = .str a.alg then .ok a else .error .valueError) ∨
    ((¬ ∃ a : SignatureAlgorithm, JsonValue.get jwk (lit "kty") = some (.str a.kty) ∧ JsonValue.get jwk (lit "crv") = some (.str a.crv)) ∧
      algorithmOf jwk = .error .valueError) := by
  unfold algorithmOf
  cases hfind : [SignatureAlgorithm.ed25519, .es256].find? fun a => hasText jwk (lit "kty") a.kty && hasText jwk (lit "crv") a.crv with
  | none =>
    refine .inr ⟨?_, rfl⟩
    rintro ⟨a, hkty, hcrv⟩
    refine List.find?_eq_none.1 hfind a (by cases a <;> simp) ?_
    rw [Bool.and_eq_true]
    exact ⟨hasText_iff.2 hkty, hasText_iff.2 hcrv⟩
  | some a =>
    have hnames := List.find?_some hfind
    rw [Bool.and_eq_true] at hnames
    exact .inl ⟨a, hasText_iff.1 hnames.1, hasText_iff.1 hnames.2, rfl⟩

/-- A JWK raises something else exactly when its `alg` cannot be looked up. -/
theorem publicKeyOf_valueErrorOnly (jwk : Members) : ValueErrorOnly (publicKeyOf C jwk) ↔ ¬ UnhashableAlg jwk := by
  constructor
  · rintro h ⟨hd, ⟨k, hk, hne⟩, ⟨a, hkty, hcrv⟩, v, hv, hash⟩
    have hkid : kidOf jwk = .ok k := by simp [kidOf, hd, hk, hne]
    have halg : algorithmOf jwk = .error .typeError := by
      rcases named_algorithm jwk with ⟨b, -, -, heq⟩ | ⟨hno, -⟩
      · rw [heq, hv]
        exact if_pos hash
      · exact absurd ⟨a, hkty, hcrv⟩ hno
    have hraise : publicKeyOf C jwk = .error .typeError := by
      rw [publicKeyOf, hkid]
      change (algorithmOf jwk >>= _) = _
      rw [halg]
      rfl
    cases h _ hraise
  · intro hno
    refine (valueErrorOnly_kidOf jwk).bind fun k hk => ValueErrorOnly.bind ?_ fun a _ =>
      (valueErrorOnly_roleOf jwk).bind fun role _ => (valueErrorOnly_checkRevoked jwk).bind fun _ _ =>
        (valueErrorOnly_jwkKey jwk a).bind fun p _ => valueErrorOnly_ok _
    have hchecked : JsonValue.get jwk (lit "d") = none ∧ ∃ k, JsonValue.get jwk (lit "kid") = some (.str k) ∧ k ≠ [] := by
      unfold kidOf at hk
      split at hk
      · next text hd hkid =>
        split at hk
        · cases hk
        · next hne => exact ⟨hd, text, hkid, hne⟩
      · cases hk
    rcases named_algorithm jwk with ⟨a, hkty, hcrv, heq⟩ | ⟨-, heq⟩
    · rw [heq]
      split
      · exact valueErrorOnly_ok a
      · next v hv =>
        split
        · next hash => exact absurd ⟨hchecked.1, hchecked.2, ⟨a, hkty, hcrv⟩, v, hv, hash⟩ hno
        · split
          · exact valueErrorOnly_ok a
          · exact valueErrorOnly_error
    · rw [heq]
      exact valueErrorOnly_error

/-! ## A set -/

/-- What a list of calls raises is what the first one of them raises that does not succeed. -/
theorem mapM_error_iff {α β : Type} {f : α → Checked β} {l : List α} {e : PyError} :
    l.mapM f = .error e ↔ ∃ before a after, l = before ++ a :: after ∧ (∀ b ∈ before, ∃ c, f b = .ok c) ∧ f a = .error e := by
  induction l with
  | nil =>
    constructor
    · rintro ⟨⟩
    · rintro ⟨before, a, after, hl, -⟩
      exact absurd hl (by simp)
  | cons x l ih =>
    rw [List.mapM_cons]
    constructor
    · intro h
      cases hx : f x with
      | error e' =>
        rw [hx] at h
        cases h
        exact ⟨[], x, l, rfl, by rintro _ ⟨⟩, hx⟩
      | ok c =>
        rw [hx] at h
        cases hl : l.mapM f with
        | ok cs =>
          have hok : (Except.ok c >>= fun b => l.mapM f >>= fun bs => pure (b :: bs) : Checked (List β)) = .ok (c :: cs) := by
            rw [hl]
            rfl
          rw [hok] at h
          cases h
        | error e' =>
          have herr : (Except.ok c >>= fun b => l.mapM f >>= fun bs => pure (b :: bs) : Checked (List β)) = .error e' := by
            rw [hl]
            rfl
          rw [herr] at h
          cases h
          obtain ⟨before, a, after, rfl, hbefore, ha⟩ := ih.1 hl
          refine ⟨x :: before, a, after, rfl, fun b hb => ?_, ha⟩
          rcases List.mem_cons.1 hb with rfl | hb
          · exact ⟨c, hx⟩
          · exact hbefore b hb
    · rintro ⟨before, a, after, hl, hbefore, ha⟩
      cases before with
      | nil =>
        cases hl
        rw [ha]
        rfl
      | cons b before =>
        cases hl
        obtain ⟨c, hc⟩ := hbefore x List.mem_cons_self
        have hrest := ih.2 ⟨before, a, after, rfl, fun b hb => hbefore b (List.mem_cons_of_mem _ hb), ha⟩
        rw [hc, hrest]
        rfl

theorem valueErrorOnly_asObject (v : Json) : ValueErrorOnly (asObject v) := by
  cases v with
  | obj ms => exact valueErrorOnly_ok ms
  | _ => exact valueErrorOnly_error

theorem valueErrorOnly_mapM {α β : Type} {f : α → Checked β} {l : List α} (h : ∀ a ∈ l, ValueErrorOnly (f a)) :
    ValueErrorOnly (l.mapM f) := by
  intro e he
  obtain ⟨before, a, after, rfl, -, ha⟩ := mapM_error_iff.1 he
  exact h a (List.mem_append_right _ List.mem_cons_self) e ha

theorem valueErrorOnly_jwksOf (document : Json) : ValueErrorOnly (jwksOf document) := by
  unfold jwksOf
  split
  · split
    · exact valueErrorOnly_mapM fun v _ => valueErrorOnly_asObject v
    · exact valueErrorOnly_error
  · exact valueErrorOnly_error

section Load

variable {role : KeyRole}

/-- A method that succeeds or raises `ValueError`, on whatever registries. -/
def RaisesValueError {α : Type} (m : RegistryM role α) : Prop := ∀ s e s', m s = .error e s' → e = .valueError

theorem RaisesValueError.bind {α β : Type} {m : RegistryM role α} {f : α → RegistryM role β} (hm : RaisesValueError m)
    (hf : ∀ a, RaisesValueError (f a)) : RaisesValueError (m >>= f) := by
  intro s e s' h
  rw [bind_apply] at h
  cases hms : m s with
  | ok a t =>
    rw [hms] at h
    exact hf a t e s' h
  | error e' t =>
    rw [hms] at h
    cases h
    exact hm _ _ _ hms

theorem raisesValueError_orRaise {α : Type} {x : Checked α} (h : ValueErrorOnly x) :
    RaisesValueError (orRaise x : RegistryM role α) := by
  intro s e s' heq
  cases x with
  | ok a => cases heq
  | error e' =>
    cases heq
    exact h e rfl

theorem valueErrorOnly_register (k : Str) (p : PublicKey) (a : SignatureAlgorithm) (t : KeyTable role) :
    ValueErrorOnly (t.register k p a) := by
  intro e he
  have hreg : t.registry.register k p a = .error e := by
    unfold KeyTable.register at he
    split at he
    · next hr =>
      cases he
      exact hr
    · cases he
  unfold KeyRegistry.register at hreg
  split at hreg
  · cases hreg
    rfl
  split at hreg
  · cases hreg
    rfl
  split at hreg
  · split at hreg
    · cases hreg
      rfl
    · cases hreg
  · cases hreg

theorem valueErrorOnly_revoke (k : Str) (t : KeyTable role) : ValueErrorOnly (t.revoke k) := by
  intro e he
  have hrev : t.registry.revoke k = .error e := by
    unfold KeyTable.revoke at he
    split at he
    · next hr =>
      cases he
      exact hr
    · cases he
  unfold KeyRegistry.revoke at hrev
  split at hrev
  · cases hrev
    rfl
  · cases hrev

theorem raisesValueError_rehearse {f : KeyTable role → Checked (KeyTable role)} (h : ∀ t, ValueErrorOnly (f t)) :
    RaisesValueError (rehearse f) := by
  intro s e s' heq
  rw [rehearse_apply] at heq
  cases hf : f s.rehearsal with
  | ok t =>
    rw [hf] at heq
    cases heq
  | error e' =>
    rw [hf] at heq
    cases heq
    exact h _ _ hf

theorem raisesValueError_pure {α : Type} (a : α) : RaisesValueError (pure a : RegistryM role α) := by rintro _ _ _ ⟨⟩

theorem raisesValueError_modify (g : KeyTables role → KeyTables role) :
    RaisesValueError (modify g : RegistryM role Unit) := by rintro _ _ _ ⟨⟩

theorem raisesValueError_registerAll (entries : List JwkEntry) : RaisesValueError (registerAll entries : RegistryM role Unit) := by
  induction entries with
  | nil => exact raisesValueError_pure ()
  | cons e entries ih => exact (raisesValueError_rehearse fun t => valueErrorOnly_register _ _ _ t).bind fun _ => ih

theorem raisesValueError_revokeAll (keys : List Members) : RaisesValueError (revokeAll keys : RegistryM role Unit) := by
  induction keys with
  | nil => exact raisesValueError_pure ()
  | cons jwk keys ih =>
    unfold revokeAll
    split
    · exact (raisesValueError_rehearse fun t => valueErrorOnly_revoke _ t).bind fun _ => ih
    · exact (raisesValueError_pure ()).bind fun _ => ih

theorem valueErrorOnly_checkRole (entries : List JwkEntry) : ValueErrorOnly (entries.forM (checkRole role)) := by
  induction entries with
  | nil => exact valueErrorOnly_ok ()
  | cons e entries ih =>
    have hcheck : ValueErrorOnly (checkRole role e) := by
      unfold checkRole
      split
      · exact valueErrorOnly_ok ()
      · exact valueErrorOnly_error
    change ValueErrorOnly (checkRole role e >>= fun _ => entries.forM (checkRole role))
    exact hcheck.bind fun _ _ => ih

theorem loadJwks_on (document : Json) (t : KeyTable role) :
    (RegistryCall.loadJwks document).on C t = match loadJwks C document ⟨t, .empty⟩ with
      | .ok _ s => (.ok (), s.self)
      | .error e s => (.error e, s.self) := rfl

/-- The first JWK of the set that is not read is one whose `alg` cannot be looked up. -/
def FirstUnread (C : KeyCodec) (document : Json) : Prop :=
  ∃ before key after, jwksOf document = .ok (before ++ key :: after) ∧ (∀ jwk ∈ before, ∃ entry, publicKeyOf C jwk = .ok entry) ∧
    UnhashableAlg key

theorem loadJwks_valueErrorOnly (document : Json) (t : KeyTable role) :
    ValueErrorOnly ((RegistryCall.loadJwks document).on C t).1 ↔ ¬ FirstUnread C document := by
  constructor
  · rintro h ⟨before, key, after, hkeys, hbefore, halg⟩
    have hnot : ¬ ValueErrorOnly (publicKeyOf C key) := fun hv => (publicKeyOf_valueErrorOnly key).1 hv halg
    obtain ⟨e, he, hne⟩ : ∃ e, publicKeyOf C key = .error e ∧ e ≠ .valueError := by
      simpa [ValueErrorOnly] using hnot
    have hmap : (before ++ key :: after).mapM (publicKeyOf C) = .error e :=
      mapM_error_iff.2 ⟨before, key, after, rfl, hbefore, he⟩
    have hload : (loadJwks C document : RegistryM role Unit) ⟨t, .empty⟩ = .error e ⟨t, .empty⟩ := by
      unfold loadJwks
      rw [hkeys, orRaise_ok_bind, hmap, orRaise_error_bind]
    exact hne (h e (by rw [loadJwks_on, hload]))
  · intro hno e he
    rw [loadJwks_on] at he
    cases hload : (loadJwks C document : RegistryM role Unit) ⟨t, .empty⟩ with
    | ok u s =>
      rw [hload] at he
      cases he
    | error e' s =>
      rw [hload] at he
      cases he
      unfold loadJwks at hload
      cases hkeys : jwksOf document with
      | error e' =>
        rw [hkeys, orRaise_error_bind] at hload
        cases hload
        exact valueErrorOnly_jwksOf document _ hkeys
      | ok keys =>
        rw [hkeys, orRaise_ok_bind] at hload
        have hmap : ValueErrorOnly (keys.mapM (publicKeyOf C)) := by
          intro e' he'
          obtain ⟨before, key, after, rfl, hbefore, hkey⟩ := mapM_error_iff.1 he'
          by_contra hne
          refine hno ⟨before, key, after, hkeys, hbefore, ?_⟩
          by_contra halg
          exact hne ((publicKeyOf_valueErrorOnly key).2 halg e' hkey)
        refine (raisesValueError_orRaise hmap).bind (fun entries => ?_) _ _ _ hload
        exact (raisesValueError_orRaise (valueErrorOnly_checkRole entries)).bind fun _ =>
          (raisesValueError_modify _).bind fun _ => (raisesValueError_registerAll entries).bind fun _ =>
            (raisesValueError_revokeAll keys).bind fun _ => raisesValueError_modify _

end Load

/-- `public_key_of` and `load_jwks` raise nothing but `ValueError`, exactly where no `alg` that they reach is an array
or an object. -/
theorem malformed_keys (C : KeyCodec) : (∀ jwk, ValueErrorOnly (publicKeyOf C jwk) ↔ ¬ UnhashableAlg jwk) ∧
    ∀ (role : KeyRole) (t : KeyTable role) (document : Json),
      ValueErrorOnly ((RegistryCall.loadJwks document).on C t).1 ↔ ¬ FirstUnread C document :=
  ⟨publicKeyOf_valueErrorOnly, fun _ t document => loadJwks_valueErrorOnly document t⟩

def listAlgJwk : Members :=
  [(lit "kid", .str (lit "k")), (lit "kty", .str (lit "OKP")), (lit "crv", .str (lit "Ed25519")), (lit "alg", .arr [])]

/-- An `alg` that is a list, of one JWK and in a set. -/
theorem list_alg_raises : publicKeyOf derCodec listAlgJwk = .error .typeError ∧
    ((RegistryCall.loadJwks (.obj [(lit "keys", .arr [.obj listAlgJwk])])).on derCodec (.empty : KeyTable .tool)).1 =
      .error .typeError := by
  have hjwk : publicKeyOf derCodec listAlgJwk = .error .typeError := rfl
  refine ⟨hjwk, ?_⟩
  have hload : (loadJwks derCodec (.obj [(lit "keys", .arr [.obj listAlgJwk])]) : RegistryM .tool Unit) ⟨.empty, .empty⟩ =
      .error .typeError ⟨.empty, .empty⟩ := rfl
  rw [loadJwks_on, hload]

end AuditableMcp
