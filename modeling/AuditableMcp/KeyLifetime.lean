import AuditableMcp.Accounting
import AuditableMcp.Jwks
/-!
# What a registry holds, for good

An entry of a `KeyRegistry` never disappears, keeps its algorithm and its key, and stays revoked once it is,
whatever calls are made of the registry and however they end (`key_lifetime`). A key set is loaded whole or not
at all, and a registry written as a set is read back as it was (`load_jwks_spec`).
-/
namespace AuditableMcp

open JsonValue

namespace KeyRegistry

variable {role : KeyRole} {r r' : KeyRegistry role}

/-- The key and the algorithm bound to a key_id. -/
def Binds (r : KeyRegistry role) (k : Str) (p : PublicKey) (a : SignatureAlgorithm) : Prop :=
  ∃ e, r.get k = some e ∧ e.publicKey = p ∧ e.algorithm = a

def Revoked (r : KeyRegistry role) (k : Str) : Prop := ∃ e, r.get k = some e ∧ e.revoked = true

/-- Every entry has a name, and a key of its algorithm. -/
def Suited (r : KeyRegistry role) : Prop :=
  ∀ k e, r.get k = some e → k ≠ [] ∧ isKeyOf e.publicKey e.algorithm = true

theorem suited_empty : (empty : KeyRegistry role).Suited := by rintro _ _ ⟨⟩

theorem Binds.unique {k : Str} {p q : PublicKey} {a b : SignatureAlgorithm} (h : r.Binds k p a) (h' : r.Binds k q b) :
    p = q ∧ a = b := by
  obtain ⟨e, he, rfl, rfl⟩ := h
  obtain ⟨e', he', rfl, rfl⟩ := h'
  obtain rfl := Option.some.inj (he.symm.trans he')
  exact ⟨rfl, rfl⟩

/-- KeyTables that bind and revoke the same are the same. -/
theorem get_ext (hb : ∀ k p a, r'.Binds k p a ↔ r.Binds k p a) (hr : ∀ k, r'.Revoked k ↔ r.Revoked k) (k : Str) :
    r'.get k = r.get k := by
  have hsub : ∀ {s s' : KeyRegistry role}, (∀ k p a, s'.Binds k p a ↔ s.Binds k p a) → (∀ k, s'.Revoked k ↔ s.Revoked k) →
      ∀ e, s.get k = some e → s'.get k = some e := by
    intro s s' hb hr e he
    obtain ⟨e', he', hp, ha⟩ := (hb k e.publicKey e.algorithm).2 ⟨e, he, rfl, rfl⟩
    have hrev : e'.revoked = e.revoked := by
      rw [Bool.eq_iff_iff]
      constructor
      · intro h
        obtain ⟨f, hf, hrev⟩ := (hr k).1 ⟨e', he', h⟩
        exact Option.some.inj (hf.symm.trans he) ▸ hrev
      · intro h
        obtain ⟨f, hf, hrev⟩ := (hr k).2 ⟨e, he, h⟩
        exact Option.some.inj (hf.symm.trans he') ▸ hrev
    rw [he']
    cases e
    cases e'
    simp_all
  refine Option.ext fun e => ⟨hsub (fun k p a => (hb k p a).symm) (fun k => (hr k).symm) e, hsub hb hr e⟩

/-! ## One entry -/

theorem sameKey_eq {p q : PublicKey} {a : SignatureAlgorithm} (hp : isKeyOf p a = true) (hq : isKeyOf q a = true)
    (h : sameKey p q = true) : p = q := by
  have hder : p.der = q.der := by simpa [sameKey] using h
  cases a with
  | ed25519 =>
    cases p with
    | ellipticCurve _ _ => cases hp
    | ed25519 der =>
      cases q with
      | ellipticCurve _ _ => cases hq
      | ed25519 der' => exact congrArg PublicKey.ed25519 hder
  | es256 =>
    cases p with
    | ed25519 _ => cases hp
    | ellipticCurve secp der =>
      cases q with
      | ed25519 _ => cases hq
      | ellipticCurve secp' der' =>
        have hs : secp = true := hp
        have hs' : secp' = true := hq
        rw [hs, hs']
        exact congrArg (PublicKey.ellipticCurve true) hder

/-- What a registration does to a registry whose keys are suited. -/
theorem register_spec {k : Str} {p : PublicKey} {a : SignatureAlgorithm} (hr : r.register k p a = .ok r') (hs : r.Suited) :
    r'.Suited ∧ (∀ l q b, r'.Binds l q b ↔ r.Binds l q b ∨ (l = k ∧ q = p ∧ b = a)) ∧
      ∀ l, r'.Revoked l ↔ r.Revoked l := by
  unfold register at hr
  split at hr
  · cases hr
  · next hk =>
    split at hr
    · cases hr
    · next hkey =>
      have hkey : isKeyOf p a = true := by simpa using hkey
      split at hr
      · next old hold =>
        split at hr
        · cases hr
        · next hsame =>
          cases hr
          obtain ⟨halg, hder⟩ : old.algorithm = a ∧ sameKey old.publicKey p = true := by simpa using hsame
          have hp : old.publicKey = p := sameKey_eq (halg ▸ (hs k old hold).2) hkey hder
          refine ⟨hs, fun l q b => ⟨.inl, fun h => h.elim id ?_⟩, fun _ => Iff.rfl⟩
          rintro ⟨rfl, rfl, rfl⟩
          exact ⟨old, hold, hp, halg⟩
      · next hnone =>
        cases hr
        have hget : ∀ l, (⟨Function.update r.keys k (some ⟨a, p, false⟩)⟩ : KeyRegistry role).get l =
            if l = k then some ⟨a, p, false⟩ else r.get l := fun l => Function.update_apply _ _ _ _
        refine ⟨fun l e he => ?_, fun l q b => ?_, fun l => ?_⟩
        · rw [hget] at he
          split at he
          · next hl =>
            obtain rfl := Option.some.inj he
            exact ⟨hl ▸ hk, hkey⟩
          · exact hs l e he
        · unfold Binds
          simp only [hget]
          by_cases hl : l = k
          · subst hl
            have hnone' : r.get l = none := hnone
            simp [hnone', eq_comm]
          · simp [hl]
        · unfold Revoked
          simp only [hget]
          by_cases hl : l = k
          · subst hl
            have hnone' : r.get l = none := hnone
            simp [hnone']
          · simp [hl]

/-- A revocation marks one entry. -/
theorem revoke_spec {k : Str} (hr : r.revoke k = .ok r') :
    (r.Suited → r'.Suited) ∧ (∀ l q b, r'.Binds l q b ↔ r.Binds l q b) ∧ ∀ l, r'.Revoked l ↔ r.Revoked l ∨ l = k := by
  unfold revoke at hr
  split at hr
  · cases hr
  · next old hold =>
    cases hr
    have hold' : r.get k = some old := hold
    have hget : ∀ l, (⟨Function.update r.keys k (some { old with revoked := true })⟩ : KeyRegistry role).get l =
        if l = k then some { old with revoked := true } else r.get l := fun l => Function.update_apply _ _ _ _
    refine ⟨fun hs l e he => ?_, fun l q b => ?_, fun l => ?_⟩
    · rw [hget] at he
      split at he
      · next hl =>
        obtain rfl := Option.some.inj he
        exact hs l old (hl ▸ hold')
      · exact hs l e he
    · unfold Binds
      simp only [hget]
      by_cases hl : l = k
      · subst hl
        simp [hold']
      · simp [hl]
    · unfold Revoked
      simp only [hget]
      by_cases hl : l = k
      · simp [hl]
      · simp [hl]

/-- A registration of a key the registry binds, or of one under a new key_id, is made. -/
theorem register_ok {k : Str} {p : PublicKey} {a : SignatureAlgorithm} (hk : k ≠ []) (hkey : isKeyOf p a = true)
    (hold : ∀ e, r.get k = some e → e.publicKey = p ∧ e.algorithm = a) : ∃ r', r.register k p a = .ok r' := by
  unfold register
  rw [if_neg hk, if_neg (by simp [hkey])]
  split
  · next old h =>
    obtain ⟨rfl, rfl⟩ := hold old h
    rw [if_neg (by simp [sameKey])]
    exact ⟨_, rfl⟩
  · exact ⟨_, rfl⟩

theorem revoke_ok {k : Str} {p : PublicKey} {a : SignatureAlgorithm} (h : r.Binds k p a) : ∃ r', r.revoke k = .ok r' := by
  obtain ⟨e, he, _⟩ := h
  have he' : r.keys k = some e := he
  unfold revoke
  rw [he']
  exact ⟨_, rfl⟩

/-! ## A registry later -/

theorem Later.suited (h : r.Later r') (hs : r.Suited) : r'.Suited := by
  induction h with
  | refl => exact hs
  | tail _ hstep ih =>
    cases hstep with
    | register k p a hr => exact (register_spec hr ih).1
    | revoke k hr => exact (revoke_spec hr).1 ih

theorem Later.revoked (h : r.Later r') (hs : r.Suited) {k : Str} (hk : r.Revoked k) : r'.Revoked k := by
  induction h with
  | refl => exact hk
  | tail hprev hstep ih =>
    cases hstep with
    | register l p a hr => exact ((register_spec hr (Later.suited hprev hs)).2.2 k).2 ih
    | revoke l hr => exact ((revoke_spec hr).2.2 k).2 (.inl ih)

end KeyRegistry

/-! ## The two passes -/

section Load

variable {C : KeyCodec} {role : KeyRole}

def registerEntry (t : KeyTable role) (e : JwkEntry) : Checked (KeyTable role) := t.register e.keyId e.publicKey e.algorithm

def revokeMarked (t : KeyTable role) (jwk : Members) : Checked (KeyTable role) :=
  if saysRevoked jwk then t.revoke (kidText jwk) else .ok t

/-- A pass over the rehearsal, which the registry itself takes no part in. -/
def pass {β : Type} (f : KeyTable role → β → Checked (KeyTable role)) : List β → RegistryM role Unit
  | [] => pure ()
  | b :: bs => do
    rehearse (f · b)
    pass f bs

theorem rehearse_apply (f : KeyTable role → Checked (KeyTable role)) (s : KeyTables role) :
    rehearse f s = match f s.rehearsal with
      | .ok t => .ok () { s with rehearsal := t }
      | .error e => .error e s := by
  change (orRaise (f s.rehearsal) >>= fun t => set { s with rehearsal := t }) s = _
  cases f s.rehearsal with
  | ok t => rfl
  | error e => rfl

theorem bind_apply {α β : Type} (m : RegistryM role α) (f : α → RegistryM role β) (s : KeyTables role) :
    (m >>= f) s = match m s with
      | .ok a s' => f a s'
      | .error e s' => .error e s' := by
  change EStateM.bind m f s = _
  unfold EStateM.bind
  cases m s with
  | ok a s' => rfl
  | error e s' => rfl

theorem orRaise_ok_bind {α β : Type} (a : α) (f : α → RegistryM role β) : orRaise (.ok a) >>= f = f a := rfl

theorem orRaise_error_bind {α β : Type} (e : PyError) (f : α → RegistryM role β) (s : KeyTables role) :
    (orRaise (.error e) >>= f) s = .error e s := rfl

theorem modify_then_apply {β : Type} (g : KeyTables role → KeyTables role) (f : PUnit → RegistryM role β)
    (s : KeyTables role) : (modify g >>= f) s = f () (g s) := rfl

theorem registerAll_eq (entries : List JwkEntry) : (registerAll entries : RegistryM role Unit) = pass registerEntry entries := by
  induction entries with
  | nil => rfl
  | cons e entries ih => rw [registerAll, pass, ih]; rfl

theorem revokeAll_eq (keys : List Members) : (revokeAll keys : RegistryM role Unit) = pass revokeMarked keys := by
  induction keys with
  | nil => rfl
  | cons jwk keys ih =>
    funext s
    rw [revokeAll, pass, ih]
    unfold revokeMarked
    cases saysRevoked jwk with
    | true => rfl
    | false => rfl

theorem pass_ok {β : Type} {f : KeyTable role → β → Checked (KeyTable role)} {bs : List β} {s : KeyTables role}
    {t : KeyTable role} (h : bs.foldlM f s.rehearsal = .ok t) : pass f bs s = .ok () ⟨s.self, t⟩ := by
  induction bs generalizing s with
  | nil =>
    obtain rfl := pure_eq_ok.1 h
    rfl
  | cons b bs ih =>
    rw [List.foldlM_cons] at h
    obtain ⟨t₁, ht₁, h⟩ := bind_eq_ok.1 h
    rw [pass, bind_apply, rehearse_apply, ht₁]
    exact @ih ⟨s.self, t₁⟩ h

/-- A pass that raises leaves the registry as it was. -/
theorem pass_error {β : Type} {f : KeyTable role → β → Checked (KeyTable role)} {bs : List β} {s : KeyTables role}
    {e : PyError} (h : bs.foldlM f s.rehearsal = .error e) : ∃ t, pass f bs s = .error e ⟨s.self, t⟩ := by
  induction bs generalizing s with
  | nil => cases h
  | cons b bs ih =>
    rw [List.foldlM_cons] at h
    rw [pass, bind_apply, rehearse_apply]
    cases ht : f s.rehearsal b with
    | error e' =>
      rw [ht] at h
      cases h
      exact ⟨s.rehearsal, rfl⟩
    | ok t₁ =>
      rw [ht] at h
      exact @ih ⟨s.self, t₁⟩ h

/-- What a set comes to: its JWKs, what they describe, and the two passes. -/
structure Loads (C : KeyCodec) (document : Json) (t : KeyTable role) (keys : List Members) (entries : List JwkEntry)
    (t₁ t₂ : KeyTable role) : Prop where
  jwks : jwksOf document = .ok keys
  described : keys.mapM (publicKeyOf C) = .ok entries
  roles : entries.forM (checkRole role) = .ok ()
  registered : entries.foldlM registerEntry t = .ok t₁
  revoked : keys.foldlM revokeMarked t₁ = .ok t₂

theorem loadJwks_ok {document : Json} {s : KeyTables role} {keys : List Members} {entries : List JwkEntry}
    {t₁ t₂ : KeyTable role} (h : Loads C document s.self keys entries t₁ t₂) : loadJwks C document s = .ok () ⟨t₂, t₂⟩ := by
  have hreg := @pass_ok role _ _ _ ⟨s.self, s.self⟩ _ h.registered
  have hrev := @pass_ok role _ _ _ ⟨s.self, t₁⟩ _ h.revoked
  simp only [loadJwks, h.jwks, h.described, h.roles, registerAll_eq, revokeAll_eq, orRaise_ok_bind, modify_then_apply]
  rw [bind_apply, hreg]
  dsimp only
  rw [bind_apply, hrev]
  rfl

/-- A set that does not come to a registry raises, and leaves the registry as it was. -/
theorem loadJwks_cases (document : Json) (s : KeyTables role) :
    (∃ e t, loadJwks C document s = .error e ⟨s.self, t⟩) ∨ ∃ keys entries t₁ t₂, Loads C document s.self keys entries t₁ t₂ := by
  cases hkeys : jwksOf document with
  | error e => exact .inl ⟨e, s.rehearsal, by simp only [loadJwks, hkeys, orRaise_error_bind]⟩
  | ok keys =>
    cases hentries : keys.mapM (publicKeyOf C) with
    | error e =>
      exact .inl ⟨e, s.rehearsal, by simp only [loadJwks, hkeys, hentries, orRaise_ok_bind, orRaise_error_bind]⟩
    | ok entries =>
      cases hroles : entries.forM (checkRole role) with
      | error e =>
        exact .inl ⟨e, s.rehearsal, by
          simp only [loadJwks, hkeys, hentries, hroles, orRaise_ok_bind, orRaise_error_bind]⟩
      | ok u =>
        cases hreg : entries.foldlM registerEntry s.self with
        | error e =>
          obtain ⟨t, ht⟩ := @pass_error role _ _ _ ⟨s.self, s.self⟩ _ hreg
          refine .inl ⟨e, t, ?_⟩
          simp only [loadJwks, hkeys, hentries, hroles, registerAll_eq, orRaise_ok_bind, modify_then_apply]
          rw [bind_apply, ht]
        | ok t₁ =>
          cases hrev : keys.foldlM revokeMarked t₁ with
          | error e =>
            obtain ⟨t, ht⟩ := @pass_error role _ _ _ ⟨s.self, t₁⟩ _ hrev
            have hpass := @pass_ok role _ _ _ ⟨s.self, s.self⟩ _ hreg
            refine .inl ⟨e, t, ?_⟩
            simp only [loadJwks, hkeys, hentries, hroles, registerAll_eq, revokeAll_eq, orRaise_ok_bind, modify_then_apply]
            rw [bind_apply, hpass]
            dsimp only
            rw [bind_apply, ht]
          | ok t₂ => exact .inr ⟨keys, entries, t₁, t₂, hkeys, hentries, hroles, hreg, hrev⟩

/-! ## What the passes come to -/

theorem registerEach_later {entries : List JwkEntry} {t t' : KeyTable role} (h : entries.foldlM registerEntry t = .ok t') :
    t.registry.Later t'.registry := by
  induction entries generalizing t with
  | nil =>
    obtain rfl := pure_eq_ok.1 h
    exact .refl
  | cons e entries ih =>
    rw [List.foldlM_cons] at h
    obtain ⟨t₁, ht₁, h⟩ := bind_eq_ok.1 h
    exact .head (.register _ _ _ (KeyTable.register_eq_ok ht₁)) (ih h)

theorem revokeEach_later {keys : List Members} {t t' : KeyTable role} (h : keys.foldlM revokeMarked t = .ok t') :
    t.registry.Later t'.registry := by
  induction keys generalizing t with
  | nil =>
    obtain rfl := pure_eq_ok.1 h
    exact .refl
  | cons jwk keys ih =>
    rw [List.foldlM_cons] at h
    obtain ⟨t₁, ht₁, h⟩ := bind_eq_ok.1 h
    unfold revokeMarked at ht₁
    split at ht₁
    · exact .head (.revoke _ (KeyTable.revoke_eq_ok ht₁)) (ih h)
    · obtain rfl := Except.ok.inj ht₁
      exact ih h

/-- The first pass adds the entries of the set, and revokes nothing. -/
theorem registerEach_spec {entries : List JwkEntry} {t t' : KeyTable role} (h : entries.foldlM registerEntry t = .ok t')
    (hs : t.registry.Suited) :
    (∀ k p a, t'.registry.Binds k p a ↔ t.registry.Binds k p a ∨ ∃ e ∈ entries, k = e.keyId ∧ p = e.publicKey ∧ a = e.algorithm) ∧
      ∀ k, t'.registry.Revoked k ↔ t.registry.Revoked k := by
  induction entries generalizing t with
  | nil =>
    obtain rfl := pure_eq_ok.1 h
    simp
  | cons e entries ih =>
    rw [List.foldlM_cons] at h
    obtain ⟨t₁, ht₁, h⟩ := bind_eq_ok.1 h
    obtain ⟨hs₁, hbinds, hrevoked⟩ := KeyRegistry.register_spec (KeyTable.register_eq_ok ht₁) hs
    obtain ⟨hbinds', hrevoked'⟩ := ih h hs₁
    refine ⟨fun k p a => ?_, fun k => (hrevoked' k).trans (hrevoked k)⟩
    rw [hbinds', hbinds]
    simp only [List.exists_mem_cons_iff, or_assoc]

/-- The second pass revokes what a JWK says is revoked, and binds nothing. -/
theorem revokeEach_spec {keys : List Members} {t t' : KeyTable role} (h : keys.foldlM revokeMarked t = .ok t') :
    (∀ k p a, t'.registry.Binds k p a ↔ t.registry.Binds k p a) ∧
      ∀ k, t'.registry.Revoked k ↔ t.registry.Revoked k ∨ ∃ jwk ∈ keys, saysRevoked jwk = true ∧ k = kidText jwk := by
  induction keys generalizing t with
  | nil =>
    obtain rfl := pure_eq_ok.1 h
    simp
  | cons jwk keys ih =>
    rw [List.foldlM_cons] at h
    obtain ⟨t₁, ht₁, h⟩ := bind_eq_ok.1 h
    obtain ⟨hbinds', hrevoked'⟩ := ih h
    unfold revokeMarked at ht₁
    split at ht₁
    · next hsays =>
      obtain ⟨_, hbinds, hrevoked⟩ := KeyRegistry.revoke_spec (KeyTable.revoke_eq_ok ht₁)
      refine ⟨fun k p a => (hbinds' k p a).trans (hbinds k p a), fun k => ?_⟩
      rw [hrevoked', hrevoked]
      simp only [List.exists_mem_cons_iff, hsays, true_and, or_assoc]
    · next hsays =>
      obtain rfl := Except.ok.inj ht₁
      refine ⟨hbinds', fun k => ?_⟩
      rw [hrevoked']
      simp only [List.exists_mem_cons_iff, hsays, Bool.false_eq_true, false_and, false_or]

/-- Entries of one registry are registered into any part of it. -/
theorem registerEach_ok {entries : List JwkEntry} {R : KeyRegistry role} {t : KeyTable role} (hR : R.Suited)
    (hentries : ∀ e ∈ entries, R.Binds e.keyId e.publicKey e.algorithm) (hs : t.registry.Suited)
    (ht : ∀ k p a, t.registry.Binds k p a → R.Binds k p a) : ∃ t', entries.foldlM registerEntry t = .ok t' := by
  induction entries generalizing t with
  | nil => exact ⟨t, rfl⟩
  | cons e entries ih =>
    have he := hentries e List.mem_cons_self
    obtain ⟨entry, hentry, hp, ha⟩ := hentries e List.mem_cons_self
    obtain ⟨hk, hkey⟩ := hR _ _ hentry
    rw [hp, ha] at hkey
    obtain ⟨r, hr⟩ := @KeyRegistry.register_ok role t.registry e.keyId e.publicKey e.algorithm hk hkey fun old hold =>
      (ht _ _ _ ⟨old, hold, rfl, rfl⟩).unique he
    obtain ⟨t₁, ht₁⟩ := KeyTable.exists_register hr
    obtain ⟨hs₁, hbinds, _⟩ := KeyRegistry.register_spec (KeyTable.register_eq_ok ht₁) hs
    obtain ⟨t', ht'⟩ := @ih t₁ (fun e' he' => hentries e' (List.mem_cons_of_mem e he')) hs₁ fun k p a hb => by
      rcases (hbinds k p a).1 hb with hb | ⟨rfl, rfl, rfl⟩
      · exact ht k p a hb
      · exact he
    exact ⟨t', by rw [List.foldlM_cons]; exact bind_eq_ok.2 ⟨t₁, ht₁, ht'⟩⟩

theorem revokeEach_ok {keys : List Members} {t : KeyTable role}
    (h : ∀ jwk ∈ keys, ∃ p a, t.registry.Binds (kidText jwk) p a) : ∃ t', keys.foldlM revokeMarked t = .ok t' := by
  induction keys generalizing t with
  | nil => exact ⟨t, rfl⟩
  | cons jwk keys ih =>
    have hstep : ∃ t₁, revokeMarked t jwk = .ok t₁ ∧ ∀ k p a, t.registry.Binds k p a → t₁.registry.Binds k p a := by
      unfold revokeMarked
      split
      · obtain ⟨p, a, hb⟩ := h jwk List.mem_cons_self
        obtain ⟨r, hr⟩ := KeyRegistry.revoke_ok hb
        obtain ⟨t₁, ht₁⟩ := KeyTable.exists_revoke hr
        obtain ⟨_, hbinds, _⟩ := KeyRegistry.revoke_spec (KeyTable.revoke_eq_ok ht₁)
        exact ⟨t₁, ht₁, fun k p a => (hbinds k p a).2⟩
      · exact ⟨t, rfl, fun _ _ _ => id⟩
    obtain ⟨t₁, ht₁, hbinds⟩ := hstep
    obtain ⟨t', ht'⟩ := @ih t₁ fun jwk' hjwk' => by
      obtain ⟨p, a, hb⟩ := h jwk' (List.mem_cons_of_mem jwk hjwk')
      exact ⟨p, a, hbinds _ _ _ hb⟩
    exact ⟨t', by rw [List.foldlM_cons]; exact bind_eq_ok.2 ⟨t₁, ht₁, ht'⟩⟩

/-! ## Calls -/

theorem onSelf_apply (f : KeyTable role → Checked (KeyTable role)) (s : KeyTables role) :
    onSelf f s = match f s.self with
      | .ok t => .ok () { s with self := t }
      | .error e => .error e s := by
  change (orRaise (f s.self) >>= fun t => set { s with self := t }) s = _
  cases f s.self with
  | ok t => rfl
  | error e => rfl

/-- What one call does: it leaves the registry as it was, or it registers, revokes or loads. -/
theorem on_cases (o : RegistryCall) (t : KeyTable role) :
    ((∃ e, (o.on C t).1 = .error e) ∧ (o.on C t).2 = t) ∨ ((o.on C t).1 = .ok () ∧
      match o with
      | .register k p a => t.register k p a = .ok (o.on C t).2
      | .revoke k => t.revoke k = .ok (o.on C t).2
      | .loadJwks document => ∃ keys entries t₁, Loads C document t keys entries t₁ (o.on C t).2) := by
  cases o with
  | register k p a =>
    simp only [RegistryCall.on, RegistryCall.method, onSelf_apply]
    cases t.register k p a with
    | ok t' => exact .inr ⟨rfl, rfl⟩
    | error e => exact .inl ⟨⟨e, rfl⟩, rfl⟩
  | revoke k =>
    simp only [RegistryCall.on, RegistryCall.method, onSelf_apply]
    cases t.revoke k with
    | ok t' => exact .inr ⟨rfl, rfl⟩
    | error e => exact .inl ⟨⟨e, rfl⟩, rfl⟩
  | loadJwks document =>
    simp only [RegistryCall.on, RegistryCall.method]
    rcases @loadJwks_cases C role document ⟨t, .empty⟩ with ⟨e, t', h⟩ | ⟨keys, entries, t₁, t₂, h⟩
    · rw [h]
      exact .inl ⟨⟨e, rfl⟩, rfl⟩
    · rw [loadJwks_ok h]
      exact .inr ⟨rfl, keys, entries, t₁, h⟩

theorem on_later (o : RegistryCall) (t : KeyTable role) : t.registry.Later (o.on C t).2.registry := by
  rcases @on_cases C role o t with ⟨_, h⟩ | ⟨_, h⟩
  · rw [h]
  · cases o with
    | register k p a => exact .single (.register k p a (KeyTable.register_eq_ok h))
    | revoke k => exact .single (.revoke k (KeyTable.revoke_eq_ok h))
    | loadJwks document =>
      obtain ⟨keys, entries, t₁, h⟩ := h
      exact (registerEach_later h.registered).trans (revokeEach_later h.revoked)

theorem calls_later (os : List RegistryCall) (t : KeyTable role) : t.registry.Later (calls C os t).registry := by
  induction os generalizing t with
  | nil => exact .refl
  | cons o os ih => exact (on_later o t).trans (ih _)

theorem calls_suited (os : List RegistryCall) : (calls C os (.empty : KeyTable role)).registry.Suited :=
  (calls_later os .empty).suited KeyRegistry.suited_empty

end Load

/-! ## The lifetime of an entry -/

/-- A registry's entries in a later one: each with its algorithm and key, which agree, and revoked if it was. -/
def Lasts {role : KeyRole} (r r' : KeyRegistry role) : Prop :=
  ∀ k e, r.get k = some e → isKeyOf e.publicKey e.algorithm = true ∧
    ∃ e', r'.get k = some e' ∧ e'.algorithm = e.algorithm ∧ e'.publicKey = e.publicKey ∧ (e.revoked = true → e'.revoked = true)

/-- **The lifetime of an entry.** After any calls, and any more after them: every entry is there with its key, of its
algorithm, and revoked for good; what `verify` accepted, `check` accepts; and a revoked key_id is unknown to `verify`. -/
theorem key_lifetime (C : KeyCodec) (K : Crypto) (W : World) (os os' : List RegistryCall) :
    (∀ role, Lasts (calls C os (.empty : KeyTable role)).registry (calls C os' (calls C os .empty)).registry) ∧
    (∀ e, (calls C os (.empty : KeyTable .tool)).registry.verify K W e = .ok none →
      (calls C os' (calls C os .empty) : KeyTable .tool).registry.check K W e = .ok true) ∧
    ∀ k, (calls C os (.empty : KeyTable .tool)).registry.Revoked k → ∀ e, keyId e = some k →
      (calls C os' (calls C os .empty) : KeyTable .tool).registry.verify K W e = .ok (some .unknownKey) := by
  refine ⟨fun role k e he => ?_, fun e he => KeyRegistry.check_of_verify (calls_later os' _) he, fun k hk e he => ?_⟩
  · have hs : (calls C os (.empty : KeyTable role)).registry.Suited := calls_suited os
    have hlater := calls_later (C := C) os' (calls C os (.empty : KeyTable role))
    obtain ⟨e', he', ha, hp⟩ := hlater.get he
    refine ⟨(hs k e he).2, e', he', ha, hp, fun hrev => ?_⟩
    obtain ⟨f, hf, hfrev⟩ := hlater.revoked hs ⟨e, he, hrev⟩
    exact Option.some.inj (hf.symm.trans he') ▸ hfrev
  · obtain ⟨f, hf, hrev⟩ := (calls_later (C := C) os' _).revoked (calls_suited os) hk
    have hcurrent : (calls C os' (calls C os .empty) : KeyTable .tool).registry.current k = none := by
      rw [KeyRegistry.current, show KeyRegistry.keys _ k = some f from hf]
      simp [hrev]
    rw [KeyRegistry.verify, rejectReason, he]
    simp only [hcurrent]

/-- A key registered, revoked, and registered again stays revoked. -/
example : ((calls ⟨fun _ => True, fun _ => [], fun _ => (0, 0), fun _ => none, fun _ _ => none⟩
    [.register (lit "tool-1") (.ed25519 [1]) .ed25519, .revoke (lit "tool-1"),
      .register (lit "tool-1") (.ed25519 [1]) .ed25519] .empty : KeyTable .tool).registry.get (lit "tool-1")).map
        (·.revoked) = some true := by decide

/-! ## A set written and loaded -/

section Jwks

variable {C : KeyCodec} {role : KeyRole}

/-- A registry of keys of the `cryptography` package, made by calls. -/
def RegistryCall.Genuine (C : KeyCodec) : RegistryCall → Prop
  | .register _ p _ => C.genuine p
  | .revoke _ => True
  | .loadJwks _ => True

theorem jwkKey_genuine (hC : C.Lawful) {jwk : Members} {a : SignatureAlgorithm} {p : PublicKey}
    (h : jwkKey C jwk a = .ok p) : C.genuine p := by
  have hor : ∀ {o : Option PublicKey}, orValueError o = .ok p → o = some p := by
    intro o ho
    cases o with
    | none => cases ho
    | some q => exact congrArg some (Except.ok.inj ho)
  cases a with
  | ed25519 =>
    obtain ⟨raw, _, h⟩ := bind_eq_ok.1 h
    exact (hC.ofRaw_genuine (hor h)).1
  | es256 =>
    obtain ⟨x, _, h⟩ := bind_eq_ok.1 h
    obtain ⟨y, _, h⟩ := bind_eq_ok.1 h
    exact (hC.ofNumbers_genuine (hor h)).1

/-- What a JWK was read as. -/
theorem publicKeyOf_spec {jwk : Members} {e : JwkEntry} (h : publicKeyOf C jwk = .ok e) :
    kidText jwk = e.keyId ∧ roleOf jwk = .ok e.role ∧ jwkKey C jwk e.algorithm = .ok e.publicKey := by
  obtain ⟨k, hk, h⟩ := bind_eq_ok.1 h
  obtain ⟨a, ha, h⟩ := bind_eq_ok.1 h
  obtain ⟨role, hrole, h⟩ := bind_eq_ok.1 h
  obtain ⟨_, _, h⟩ := bind_eq_ok.1 h
  obtain ⟨p, hp, h⟩ := bind_eq_ok.1 h
  obtain rfl := pure_eq_ok.1 h
  refine ⟨?_, hrole, hp⟩
  unfold kidOf at hk
  split at hk
  · next hkid =>
    split at hk
    · cases hk
    · cases hk
      rw [kidText, hkid]
  · cases hk

theorem calls_genuine (hC : C.Lawful) {os : List RegistryCall} (hos : ∀ o ∈ os, o.Genuine C) {t : KeyTable role}
    (hs : t.registry.Suited) (ht : ∀ k p a, t.registry.Binds k p a → C.genuine p) :
    ∀ k p a, (calls C os t).registry.Binds k p a → C.genuine p := by
  induction os generalizing t with
  | nil => exact ht
  | cons o os ih =>
    refine ih (fun o' ho' => hos o' (List.mem_cons_of_mem o ho')) ((on_later o t).suited hs) ?_
    rcases @on_cases C role o t with ⟨_, h⟩ | ⟨_, h⟩
    · dsimp only
      rw [h]
      exact ht
    · intro k p a hb
      have ho := hos o List.mem_cons_self
      cases o with
      | register l q b =>
        rcases ((KeyRegistry.register_spec (KeyTable.register_eq_ok h) hs).2.1 k p a).1 hb with hb | ⟨_, rfl, _⟩
        · exact ht k p a hb
        · exact ho
      | revoke l => exact ht k p a (((KeyRegistry.revoke_spec (KeyTable.revoke_eq_ok h)).2.1 k p a).1 hb)
      | loadJwks document =>
        obtain ⟨keys, entries, t₁, h⟩ := h
        rw [(revokeEach_spec h.revoked).1] at hb
        rcases ((registerEach_spec h.registered hs).1 k p a).1 hb with hb | ⟨e, he, _, rfl, _⟩
        · exact ht k p a hb
        · obtain ⟨jwk, _, hjwk⟩ := (mem_mapM_iff h.described).1 he
          exact jwkKey_genuine hC (publicKeyOf_spec hjwk).2.2

theorem mem_sortedItems {t : KeyTable role} {m : Str × RegisteredKey} :
    m ∈ t.sortedItems ↔ t.registry.get m.1 = some m.2 := by
  simp only [KeyTable.sortedItems, List.mem_filterMap, (List.perm_insertionSort _ _).mem_iff, t.complete, Option.map_eq_some_iff]
  constructor
  · rintro ⟨k, _, e, he, rfl⟩
    exact he
  · exact fun h => ⟨m.1, by rw [h]; rfl, m.2, h, rfl⟩

/-- A set that loads has no key of the other role. -/
theorem Loads.oneRole {document : Json} {t : KeyTable role} {keys : List Members} {entries : List JwkEntry} {t₁ t₂ : KeyTable role}
    (h : Loads C document t keys entries t₁ t₂) {jwk : Members} (hjwk : jwk ∈ keys) : roleOf jwk = .ok role := by
  obtain ⟨e, he⟩ := mapM_ok_iff.1 ⟨entries, h.described⟩ jwk hjwk
  have hcheck := forM_eq_ok_iff.1 h.roles e ((mem_mapM_iff h.described).2 ⟨jwk, hjwk, he⟩)
  unfold checkRole at hcheck
  split at hcheck
  · next heq => rw [(publicKeyOf_spec he).2.1, heq]
  · cases hcheck

/-- A registry is written as a set, which an empty registry of its role loads. -/
theorem toJwks_loads (hC : C.Lawful) {t : KeyTable role} (hs : t.registry.Suited)
    (hgen : ∀ k p a, t.registry.Binds k p a → C.genuine p) : ∃ document, t.toJwks C = .ok document ∧
      ∃ keys entries t₁ t₂, Loads C document (.empty : KeyTable role) keys entries t₁ t₂ ∧
        ∀ k, t₂.registry.get k = t.registry.get k := by
  have hread : ∀ m ∈ t.sortedItems, ∃ jwk, publicJwk C m.1 m.2 role = .ok jwk ∧
      publicKeyOf C jwk = .ok ⟨m.1, m.2.publicKey, m.2.algorithm, role⟩ ∧ kidText jwk = m.1 ∧ saysRevoked jwk = m.2.revoked := by
    intro m hm
    have hget := mem_sortedItems.1 hm
    obtain ⟨hk, hkey⟩ := hs _ _ hget
    exact publicKeyOf_publicJwk hC role hk hkey (hgen m.1 _ _ ⟨m.2, hget, rfl, rfl⟩)
  obtain ⟨keys, hkeys⟩ := mapM_ok_iff.2 fun m hm => (hread m hm).imp fun _ h => h.1
  -- a JWK of the set is an entry's, and is read as that entry
  have hjwk : ∀ jwk ∈ keys, ∃ m ∈ t.sortedItems,
      publicKeyOf C jwk = .ok ⟨m.1, m.2.publicKey, m.2.algorithm, role⟩ ∧ kidText jwk = m.1 ∧ saysRevoked jwk = m.2.revoked := by
    intro jwk hin
    obtain ⟨m, hm, hpub⟩ := (mem_mapM_iff hkeys).1 hin
    obtain ⟨jwk', hpub', hrest⟩ := hread m hm
    obtain rfl := Except.ok.inj (hpub.symm.trans hpub')
    exact ⟨m, hm, hrest⟩
  obtain ⟨entries, hentries⟩ := mapM_ok_iff.2 fun jwk hin =>
    (hjwk jwk hin).elim fun m hm => (⟨_, hm.2.1⟩ : ∃ e, publicKeyOf C jwk = .ok e)
  have hmem : ∀ {e}, e ∈ entries ↔ ∃ m ∈ t.sortedItems, e = ⟨m.1, m.2.publicKey, m.2.algorithm, role⟩ := by
    intro e
    rw [mem_mapM_iff hentries]
    constructor
    · rintro ⟨jwk, hin, he⟩
      obtain ⟨m, hm, hpub, _⟩ := hjwk jwk hin
      exact ⟨m, hm, Except.ok.inj (he.symm.trans hpub)⟩
    · rintro ⟨m, hm, rfl⟩
      obtain ⟨jwk, hpub, hread, _⟩ := hread m hm
      exact ⟨jwk, (mem_mapM_iff hkeys).2 ⟨m, hm, hpub⟩, hread⟩
  have hbound : ∀ e ∈ entries, t.registry.Binds e.keyId e.publicKey e.algorithm := by
    intro e he
    obtain ⟨m, hm, rfl⟩ := hmem.1 he
    exact ⟨m.2, mem_sortedItems.1 hm, rfl, rfl⟩
  obtain ⟨t₁, ht₁⟩ := @registerEach_ok role entries t.registry .empty hs hbound KeyRegistry.suited_empty
    (by rintro _ _ _ ⟨_, ⟨⟩, _⟩)
  obtain ⟨hbinds, hrevoked⟩ := registerEach_spec ht₁ KeyRegistry.suited_empty
  have hbinds₁ : ∀ k p a, t₁.registry.Binds k p a ↔ t.registry.Binds k p a := by
    intro k p a
    rw [hbinds]
    constructor
    · rintro (⟨_, ⟨⟩, _⟩ | ⟨e, he, rfl, rfl, rfl⟩)
      exact hbound e he
    · rintro ⟨e, he, rfl, rfl⟩
      exact .inr ⟨_, hmem.2 ⟨(k, e), mem_sortedItems.2 he, rfl⟩, rfl, rfl, rfl⟩
  obtain ⟨t₂, ht₂⟩ := @revokeEach_ok role keys t₁ fun jwk hin => by
    obtain ⟨m, hm, _, hkid, _⟩ := hjwk jwk hin
    exact ⟨m.2.publicKey, m.2.algorithm, hkid ▸ (hbinds₁ _ _ _).2 ⟨m.2, mem_sortedItems.1 hm, rfl, rfl⟩⟩
  obtain ⟨hbinds₂, hrevoked₂⟩ := revokeEach_spec ht₂
  have hdocument : t.toJwks C = .ok (.obj [(lit "keys", .arr (keys.map .obj))]) := by rw [KeyTable.toJwks, hkeys]
  have hset : jwksOf (.obj [(lit "keys", .arr (keys.map .obj))]) = .ok keys := by
    have hget : JsonValue.get [(lit "keys", .arr (keys.map .obj))] (lit "keys") = some (.arr (keys.map .obj)) := rfl
    rw [jwksOf, hget]
    exact mapM_eq_ok_iff.2 ((List.forall₂_map_left_iff).2 (List.forall₂_same.2 fun _ _ => rfl))
  refine ⟨_, hdocument, keys, entries, t₁, t₂, ⟨hset, hentries, forM_eq_ok_iff.2 fun e he => ?_, ht₁, ht₂⟩,
    KeyRegistry.get_ext (fun k p a => (hbinds₂ k p a).trans (hbinds₁ k p a)) fun k => ?_⟩
  · obtain ⟨m, _, rfl⟩ := hmem.1 he
    exact if_pos rfl
  · rw [hrevoked₂, hrevoked]
    constructor
    · rintro (⟨_, ⟨⟩, _⟩ | ⟨jwk, hin, hsays, rfl⟩)
      obtain ⟨m, hm, _, hkid, hrev⟩ := hjwk jwk hin
      exact ⟨m.2, hkid ▸ mem_sortedItems.1 hm, hrev ▸ hsays⟩
    · rintro ⟨e, he, hrev⟩
      obtain ⟨jwk, hpub, _, hkid, hsays⟩ := hread (k, e) (mem_sortedItems.2 he)
      exact .inr ⟨jwk, (mem_mapM_iff hkeys).2 ⟨_, mem_sortedItems.2 he, hpub⟩, hsays.trans hrev, hkid.symm⟩

/-- **Loading a key set.** A call that raises leaves the registry as it was; one that returns adds the entries of
the set, and revokes what a JWK of it says is revoked; a set with a key of the other role is refused; and a registry
written as a set is read back as it was. -/
theorem load_jwks_spec (hC : C.Lawful) {os : List RegistryCall} (hos : ∀ o ∈ os, o.Genuine C) {t : KeyTable role}
    (ht : calls C os .empty = t) :
    (∀ document e, ((RegistryCall.loadJwks document).on C t).1 = .error e → ((RegistryCall.loadJwks document).on C t).2 = t) ∧
    (∀ document t', (RegistryCall.loadJwks document).on C t = (.ok (), t') → ∃ keys entries,
      jwksOf document = .ok keys ∧ keys.mapM (publicKeyOf C) = .ok entries ∧
      (∀ k p a, t'.registry.Binds k p a ↔
        t.registry.Binds k p a ∨ ∃ e ∈ entries, k = e.keyId ∧ p = e.publicKey ∧ a = e.algorithm) ∧
      ∀ k, t'.registry.Revoked k ↔ t.registry.Revoked k ∨ ∃ jwk ∈ keys, saysRevoked jwk = true ∧ k = kidText jwk) ∧
    (∀ ms vs jwk other, JsonValue.get ms (lit "keys") = some (.arr vs) → Json.obj jwk ∈ vs →
      JsonValue.get jwk ROLE_MEMBER = some (.str (KeyRole.text other)) → other ≠ role →
      ∃ e, ((RegistryCall.loadJwks (.obj ms)).on C t).1 = .error e) ∧
    ∃ document t', t.toJwks C = .ok document ∧ (RegistryCall.loadJwks document).on C (.empty : KeyTable role) = (.ok (), t') ∧
      ∀ k, t'.registry.get k = t.registry.get k := by
  have hs : t.registry.Suited := ht ▸ calls_suited os
  refine ⟨fun document e he => ?_, fun document t' ht' => ?_, fun ms vs jwk other hkeys hjwk hother hne => ?_, ?_⟩
  · rcases @on_cases C role (.loadJwks document) t with ⟨_, h⟩ | ⟨h, _⟩
    · exact h
    · rw [h] at he
      cases he
  · rcases @on_cases C role (.loadJwks document) t with ⟨⟨e, h⟩, _⟩ | ⟨_, keys, entries, t₁, h⟩
    · rw [ht'] at h
      cases h
    · rw [ht'] at h
      obtain ⟨hbinds, hrevoked⟩ := registerEach_spec h.registered hs
      obtain ⟨hbinds', hrevoked'⟩ := revokeEach_spec h.revoked
      refine ⟨keys, entries, h.jwks, h.described, fun k p a => (hbinds' k p a).trans (hbinds k p a), fun k => ?_⟩
      rw [hrevoked', hrevoked]
  · rcases @on_cases C role (.loadJwks (.obj ms)) t with ⟨h, _⟩ | ⟨_, keys, entries, t₁, h⟩
    · exact h
    · have hset : vs.mapM asObject = .ok keys := by
        have hjwks := h.jwks
        rw [jwksOf, hkeys] at hjwks
        exact hjwks
      have hrole := h.oneRole ((mem_mapM_iff hset).2 ⟨_, hjwk, rfl⟩)
      rw [roleOf_eq hother] at hrole
      exact absurd (Except.ok.inj hrole) hne
  · obtain ⟨document, hdocument, keys, entries, t₁, t₂, h, hsame⟩ :=
      toJwks_loads hC hs (ht ▸ calls_genuine hC hos KeyRegistry.suited_empty (by rintro _ _ _ ⟨_, ⟨⟩, _⟩))
    refine ⟨document, t₂, hdocument, ?_, hsame⟩
    rw [RegistryCall.on, RegistryCall.method, loadJwks_ok h]

end Jwks

/-! ## Keys by their DER -/

/-- The DER of a key of one type: a fixed beginning, and the key material. -/
def ED25519_DER : Bytes := [0x30, 0x2a, 0x30, 0x05, 0x06, 0x03, 0x2b, 0x65, 0x70, 0x03, 0x21, 0x00]

def P256_DER : Bytes :=
  [0x30, 0x59, 0x30, 0x13, 0x06, 0x07, 0x2a, 0x86, 0x48, 0xce, 0x3d, 0x02, 0x01, 0x06, 0x08, 0x2a, 0x86, 0x48, 0xce, 0x3d,
    0x03, 0x01, 0x07, 0x03, 0x42, 0x00, 0x04]

/-- `y² = x³ - 3x + b`, over the field of P-256. -/
def onCurve (x y : Nat) : Bool :=
  let b := 0x5ac635d8aa3a93e7b3ebbd55769886bc651d06b0cc53b0f63bce3c3e27d2604b
  (y * y + 3 * x) % P256_PRIME == (x * x * x + b) % P256_PRIME

def pointKey (x y : Nat) : Option PublicKey :=
  match toBytes 32 x, toBytes 32 y with
  | some bx, some bs => if onCurve x y then some (.ellipticCurve true (P256_DER ++ bx ++ bs)) else none
  | _, _ => none

/-- The coordinates are taken modulo the prime. -/
def p256Key (x y : Nat) : Option PublicKey := pointKey (x % P256_PRIME) (y % P256_PRIME)

def derCodec : KeyCodec where
  genuine k := (∃ raw, raw.length = 32 ∧ IsBytes raw ∧ k = .ed25519 (ED25519_DER ++ raw)) ∨ ∃ x y, p256Key x y = some k
  raw k := k.der.drop 12
  numbers k := (fromBytes ((k.der.drop 27).take 32), fromBytes (k.der.drop 59))
  ofRaw b := if b.length == 32 && b.all (· < 256) then some (.ed25519 (ED25519_DER ++ b)) else none
  ofNumbers := p256Key

theorem pointKey_spec {x y : Nat} {k : PublicKey} (h : pointKey x y = some k) : isKeyOf k .es256 = true ∧
    derCodec.numbers k = (x, y) ∧ (∃ bx, toBytes 32 x = some bx) ∧ ∃ bs, toBytes 32 y = some bs := by
  unfold pointKey at h
  split at h
  · next bx bs hx hy =>
    obtain ⟨hxlen, _, hxval⟩ := toBytes_eq_some hx
    obtain ⟨hylen, _, hyval⟩ := toBytes_eq_some hy
    obtain ⟨_, rfl⟩ : onCurve x y = true ∧ PublicKey.ellipticCurve true (P256_DER ++ bx ++ bs) = k := by simpa using h
    have hfirst : ((P256_DER ++ bx ++ bs).drop 27).take 32 = bx := by
      rw [List.append_assoc, List.drop_append_of_le_length (by decide)]
      simp [P256_DER, ← hxlen]
    have hsecond : (P256_DER ++ bx ++ bs).drop 59 = bs := by
      rw [List.drop_append_of_le_length (by simp [P256_DER, hxlen])]
      simp [P256_DER, ← hxlen]
    refine ⟨rfl, ?_, ⟨bx, hx⟩, bs, hy⟩
    simp only [derCodec, PublicKey.der, hfirst, hsecond, hxval, hyval]
  · cases h

theorem p256Key_mod (x y : Nat) : p256Key (x % P256_PRIME) (y % P256_PRIME) = p256Key x y := by
  rw [p256Key, Nat.mod_mod, Nat.mod_mod, p256Key]

theorem derCodec_lawful : derCodec.Lawful where
  ofRaw_genuine := by
    intro b k h
    obtain ⟨⟨hlen, hbytes⟩, rfl⟩ : (b.length = 32 ∧ ∀ n ∈ b, n < 256) ∧ PublicKey.ed25519 (ED25519_DER ++ b) = k := by
      simpa [derCodec] using h
    exact ⟨.inl ⟨b, hlen, hbytes, rfl⟩, rfl⟩
  ofNumbers_genuine := fun h => ⟨.inr ⟨_, _, h⟩, (pointKey_spec h).1⟩
  ofRaw_raw := by
    rintro k (⟨raw, hlen, hbytes, rfl⟩ | ⟨x, y, h⟩) hkey
    · have hraw : derCodec.raw (.ed25519 (ED25519_DER ++ raw)) = raw := rfl
      rw [hraw]
      exact ⟨hlen, hbytes, by simpa [derCodec, hlen, IsBytes] using hbytes⟩
    · have hcurve := (pointKey_spec h).1
      cases k with
      | ed25519 der => cases hcurve
      | ellipticCurve secp der => cases hkey
  ofNumbers_numbers := by
    rintro k (⟨raw, hlen, hbytes, rfl⟩ | ⟨x, y, h⟩) hkey
    · cases hkey
    · obtain ⟨_, hnum, hx, hy⟩ := pointKey_spec h
      rw [hnum]
      exact ⟨hx, hy, (p256Key_mod x y).trans h⟩

/-- An Ed25519 public key. -/
def SAMPLE_KEY : PublicKey := .ed25519 (ED25519_DER ++ [0xd7, 0x5a, 0x98, 0x01, 0x82, 0xb1, 0x0a, 0xb7, 0xd5, 0x4b, 0xfe,
  0xd3, 0xc9, 0x64, 0x07, 0x3a, 0x0e, 0xe1, 0x72, 0xf3, 0xda, 0xa6, 0x23, 0x25, 0xaf, 0x02, 0x1a, 0x68, 0xf7, 0x07, 0x51, 0x1a])

/-- The P-256 key of abscissa 5. -/
def POINT_KEY : PublicKey := .ellipticCurve true (P256_DER ++ List.replicate 31 0 ++ [0x05,
  0x45, 0x92, 0x43, 0xb9, 0xaa, 0x58, 0x18, 0x06, 0xfe, 0x91, 0x3b, 0xce, 0x99, 0x81, 0x7a, 0xde,
  0x11, 0xca, 0x50, 0x3c, 0x64, 0xd9, 0xa3, 0xc5, 0x33, 0x41, 0x5c, 0x08, 0x32, 0x48, 0xfb, 0xcc])

/-- A JWK of the Ed25519 key. -/
def sampleJwk (role : KeyRole) (revoked : Bool) : Json :=
  match publicJwk derCodec (lit "tool-1") ⟨.ed25519, SAMPLE_KEY, revoked⟩ role with
  | .ok jwk => .obj jwk
  | .error _ => .null

def keySet (keys : List Json) : Json := .obj [(lit "keys", .arr keys)]

def sampleCalls : List RegistryCall :=
  [.register (lit "tool-1") SAMPLE_KEY .ed25519, .register (lit "tool-2") POINT_KEY .es256, .revoke (lit "tool-2")]

def sampleTable : KeyTable .tool := calls derCodec sampleCalls .empty

/-- A registry of two keys, one of them revoked, writes a set and reads it back; a set that names a key twice, the second
time revoked, revokes it; and one that has it under the other role too leaves the registry as it was. -/
theorem load_jwks_spec_two :
    (∃ document t', sampleTable.toJwks derCodec = .ok document ∧
      (RegistryCall.loadJwks document).on derCodec (.empty : KeyTable .tool) = (.ok (), t') ∧
      t'.registry.get (lit "tool-1") = some ⟨.ed25519, SAMPLE_KEY, false⟩ ∧
      t'.registry.get (lit "tool-2") = some ⟨.es256, POINT_KEY, true⟩) ∧
    (∃ t', (RegistryCall.loadJwks (keySet [sampleJwk .tool false, sampleJwk .tool true])).on derCodec sampleTable =
      (.ok (), t') ∧ t'.registry.Revoked (lit "tool-1")) ∧
    ((RegistryCall.loadJwks (keySet [sampleJwk .tool true, sampleJwk .host false])).on derCodec sampleTable).2 =
      sampleTable := by
  have hos : ∀ o ∈ sampleCalls, o.Genuine derCodec := by
    intro o ho
    simp only [sampleCalls, List.mem_cons, List.not_mem_nil, or_false] at ho
    rcases ho with rfl | rfl | rfl
    · exact .inl ⟨_, by decide, by unfold IsBytes; decide, rfl⟩
    · exact .inr ⟨5, 0x459243b9aa581806fe913bce99817ade11ca503c64d9a3c533415c083248fbcc, by decide⟩
    · trivial
  obtain ⟨hatomic, hloads, hrefused, document, t', hdocument, hload, hget⟩ :=
    load_jwks_spec derCodec_lawful hos (@rfl (KeyTable .tool) _)
  refine ⟨⟨document, t', hdocument, hload, (hget _).trans (by decide), (hget _).trans (by decide)⟩, ?_, ?_⟩
  · have hok : ((RegistryCall.loadJwks (keySet [sampleJwk .tool false, sampleJwk .tool true])).on derCodec sampleTable).1 =
        .ok () := by decide
    obtain ⟨keys, entries, hkeys, _, _, hrevoked⟩ := hloads _ _ (Prod.ext hok rfl)
    have hmarked : ∀ keys ∈ (jwksOf (keySet [sampleJwk .tool false, sampleJwk .tool true])).toOption,
        keys.any (fun jwk => saysRevoked jwk && kidText jwk == lit "tool-1") = true := by decide
    obtain ⟨jwk, hjwk, hsays⟩ := List.any_eq_true.1 (hmarked keys (by rw [hkeys]; rfl))
    rw [Bool.and_eq_true, beq_iff_eq] at hsays
    exact ⟨_, Prod.ext hok rfl, (hrevoked _).2 (.inr ⟨jwk, hjwk, hsays.1, hsays.2.symm⟩)⟩
  · have hhost : ∀ ms, sampleJwk .host false = .obj ms → JsonValue.get ms ROLE_MEMBER = some (.str (KeyRole.text .host)) := by
      rintro ms ⟨⟩
      decide
    obtain ⟨ms, hms⟩ : ∃ ms, sampleJwk .host false = .obj ms := ⟨_, rfl⟩
    obtain ⟨e, he⟩ := hrefused [(lit "keys", .arr [sampleJwk .tool true, sampleJwk .host false])] _ ms .host rfl
      (by rw [hms]; simp) (hhost ms hms) (by decide)
    exact hatomic _ e he

end AuditableMcp
