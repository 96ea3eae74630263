import AuditableMcp.HttpRegistry
/-!
# The rounds of an HTTP entry

A token that was issued is in its connection's, in the hand of one serving, or spoken for by a frame that was written,
and in one of them only (`Places`); what was written for a serving is as its caller and its round say (`Written`); and a
token is lost only with its connection, or with the serving that had it in hand (`Whereabouts`). Each operation of the
entry keeps them, a round that goes out as long as its token is fresh (`Kept.issue`).
-/
namespace AuditableMcp

open JsonValue

def Origin.token : Origin → Option Str
  | .retry _ token => some token
  | _ => none

def Origin.serving : Origin → Option Nat
  | .opening k | .retry k _ | .listing k | .cancellation k => some k
  | .refusal => none

/-- The `requestState` a request carries. -/
def stateIn : Frame → Option Json
  | .request _ _ params => get (params.getD []) REQUEST_STATE
  | _ => none

/-- This serving has the retry of a token in hand. -/
def Serving.InHand (x : Serving) (token : Str) (own : Option Json) : Prop :=
  x.purpose = .retry token own ∧ x.stage.undecided = true

/-- The caller of a retry is its round's. -/
structure OwnCaller {W : World} (p : Post) (call : CallConnection W) (token : Str) (own : Option Json) : Prop where
  token : p.requestState.bind reserved = some token
  principal : p.principal = call.principal
  session : own.isSome = true → bodySession p.params = some call.sessionId

/-- The caller of an opening opens the call it names. -/
structure Opens {W : World} (p : Post) (call : CallConnection W) : Prop where
  state : p.requestState = none
  principal : p.principal = call.principal
  session : bodySession p.params = some call.sessionId

namespace HttpEntry

variable {W : World} {C : HttpConfig} {s s' : HttpEntry W}

/-- The tokens whose retry was written. -/
def spoken (s : HttpEntry W) : List Str := s.log.filterMap fun l => l.origin.token

@[simp] theorem serve_self (x : Serving) (s : HttpEntry W) : (s.serve x).servings s.servingCount = x := by
  simp [serve]

theorem serve_ne {k : Nat} (hk : k ≠ s.servingCount) (x : Serving) : (s.serve x).servings k = s.servings k := by
  simp [serve, hk]

@[simp] theorem setStage_self (k : Nat) (stage : Stage) (s : HttpEntry W) :
    (s.setStage k stage).servings k = { s.servings k with stage } := by
  simp [setStage]

theorem setStage_ne {j k : Nat} (hj : j ≠ k) (stage : Stage) (s : HttpEntry W) :
    (s.setStage k stage).servings j = s.servings j := by
  simp [setStage, hj]

/-! ## What was written -/

/-- A serving has the call it is for: the one it opened, or the one of its round. -/
structure Serves (s : HttpEntry W) (k : Nat) : Prop where
  connection : (s.servings k).connection < s.connectionCount
  opening : (s.servings k).purpose = .opening → (s.connections (s.servings k).connection).opener = k ∧
    Opens (s.servings k).post (s.connections (s.servings k).connection)
  retry : ∀ token own, (s.servings k).purpose = .retry token own →
    ⟨token, (s.servings k).connection, own⟩ ∈ s.issued ∧
      OwnCaller (s.servings k).post (s.connections (s.servings k).connection) token own

/-- What was written for a serving went into its own connection, and as it should. -/
structure Posted (s : HttpEntry W) (l : Letter) (k : Nat) : Prop where
  started : k < s.servingCount
  serves : s.Serves k
  connection : (s.servings k).connection = l.connection
  opening : l.origin = .opening k → (s.servings k).purpose = .opening
  retry : ∀ token, l.origin = .retry k token → ∃ own, (s.servings k).purpose = .retry token own ∧
    stateIn l.frame = some (own.getD (.str token))

structure Written (s : HttpEntry W) : Prop where
  issued : ∀ i ∈ s.issued, i.connection < s.connectionCount
  idle : ∀ k, s.servingCount ≤ k → (s.servings k).stage = .done
  servings : ∀ k, (s.servings k).stage ≠ .done → s.Serves k
  letters : ∀ l ∈ s.log, l.connection < s.connectionCount ∧ ∀ k, l.origin.serving = some k → s.Posted l k

/-- What an operation leaves as it is: who a connection is for, and what a serving was asked. -/
structure Later (s s' : HttpEntry W) : Prop where
  connectionCount : s.connectionCount ≤ s'.connectionCount
  servingCount : s.servingCount ≤ s'.servingCount
  calls : ∀ c, c < s.connectionCount → (s'.connections c).sessionId = (s.connections c).sessionId ∧
    (s'.connections c).principal = (s.connections c).principal ∧ (s'.connections c).opener = (s.connections c).opener
  servings : ∀ k, k < s.servingCount → (s'.servings k).post = (s.servings k).post ∧
    (s'.servings k).connection = (s.servings k).connection ∧ (s'.servings k).purpose = (s.servings k).purpose
  issued : s.issued ⊆ s'.issued

theorem Serves.later {k : Nat} (h : s.Serves k) (hl : s.Later s') (hk : k < s.servingCount) : s'.Serves k := by
  obtain ⟨hpost, hconnection, hpurpose⟩ := hl.servings k hk
  obtain ⟨hsession, hprincipal, hopener⟩ := hl.calls _ h.connection
  refine ⟨?_, fun hopening => ?_, fun token own hretry => ?_⟩
  · rw [hconnection]
    exact lt_of_lt_of_le h.connection hl.connectionCount
  · obtain ⟨hopened, hopens⟩ := h.opening (hpurpose ▸ hopening)
    rw [hconnection, hpost]
    exact ⟨hopener.trans hopened, hopens.state, hopens.principal.trans hprincipal.symm,
      hopens.session.trans (congrArg some hsession.symm)⟩
  · obtain ⟨hissued, hcaller⟩ := h.retry token own (hpurpose ▸ hretry)
    rw [hconnection, hpost]
    exact ⟨hl.issued hissued, hcaller.token, hcaller.principal.trans hprincipal.symm,
      fun hsome => (hcaller.session hsome).trans (congrArg some hsession.symm)⟩

theorem Posted.later {l : Letter} {k : Nat} (h : s.Posted l k) (hl : s.Later s') : s'.Posted l k := by
  obtain ⟨-, hconnection, hpurpose⟩ := hl.servings k h.started
  refine ⟨lt_of_lt_of_le h.started hl.servingCount, h.serves.later hl h.started, hconnection.trans h.connection, ?_, ?_⟩
  · rw [hpurpose]
    exact h.opening
  · rw [hpurpose]
    exact h.retry

/-- What is new is as it should be, so all of it is. -/
theorem Written.later (h : s.Written) (hl : s.Later s')
    (hissued : ∀ i ∈ s'.issued, i ∈ s.issued ∨ i.connection < s'.connectionCount)
    (hidle : ∀ k, s'.servingCount ≤ k → (s'.servings k).stage = .done)
    (hservings : ∀ k, (s'.servings k).stage ≠ .done → (s.servings k).stage ≠ .done ∨ s'.Serves k)
    (hletters : ∀ l ∈ s'.log, l ∈ s.log ∨
      l.connection < s'.connectionCount ∧ ∀ k, l.origin.serving = some k → s'.Posted l k) : s'.Written where
  issued i hi := (hissued i hi).elim (fun hold => lt_of_lt_of_le (h.issued i hold) hl.connectionCount) id
  idle := hidle
  servings k hk := (hservings k hk).elim (fun hold => (h.servings k hold).later hl
    (Nat.lt_of_not_le fun hle => hold (h.idle k hle))) id
  letters l hmem := (hletters l hmem).elim (fun hold =>
    ⟨lt_of_lt_of_le (h.letters l hold).1 hl.connectionCount,
      fun k hk => ((h.letters l hold).2 k hk).later hl⟩) id

/-! ## Where the tokens are -/

structure Places (s : HttpEntry W) : Prop where
  once : (s.issued.map Issue.token).Nodup
  own : ∀ c token, (s.connections c).closing = none → token ∉ (s.connections c).tokens →
    (s.connections c).ownRounds.get token = none
  listed : ∀ c, ∀ token ∈ (s.connections c).tokens, ⟨token, c, (s.connections c).ownRounds.get token⟩ ∈ s.issued
  hand : ∀ k token own, (s.servings k).InHand token own →
    ⟨token, (s.servings k).connection, own⟩ ∈ s.issued ∧ ∀ c, token ∉ (s.connections c).tokens
  hands : ∀ k k' token own own', (s.servings k).InHand token own → (s.servings k').InHand token own' → k = k'
  spoken : ∀ token ∈ s.spoken, (∃ i ∈ s.issued, i.token = token) ∧ (∀ c, token ∉ (s.connections c).tokens) ∧
    ∀ k own, ¬(s.servings k).InHand token own
  spokenOnce : s.spoken.Nodup

/-- A token that was issued is one of its connection's only. -/
theorem Places.issue_unique (h : s.Places) {i j : Issue} (hi : i ∈ s.issued) (hj : j ∈ s.issued)
    (htoken : i.token = j.token) : i = j :=
  List.inj_on_of_nodup_map h.once hi hj htoken

/-- No one has the token. -/
structure Free (s : HttpEntry W) (token : Str) : Prop where
  tokens : ∀ c, token ∉ (s.connections c).tokens
  hand : ∀ k own, ¬(s.servings k).InHand token own
  spoken : token ∉ s.spoken

/-- Tokens are let go, by a connection or a serving. -/
theorem Places.letGo (h : s.Places)
    (htokens : ∀ c, ∀ token ∈ (s'.connections c).tokens, token ∈ (s.connections c).tokens ∧
      (s'.connections c).ownRounds.get token = (s.connections c).ownRounds.get token)
    (hown : ∀ c token, (s'.connections c).closing = none → token ∉ (s'.connections c).tokens →
      (s'.connections c).ownRounds.get token = none)
    (hhand : ∀ k token own, (s'.servings k).InHand token own →
      (s.servings k).InHand token own ∧ (s'.servings k).connection = (s.servings k).connection)
    (hspoken : s'.spoken = s.spoken) (hissued : s'.issued = s.issued) : s'.Places := by
  refine ⟨hissued ▸ h.once, hown, fun c token hmem => ?_, fun k token own hk => ?_,
    fun k k' token own own' hk hk' => h.hands k k' token own own' (hhand k token own hk).1 (hhand k' token own' hk').1,
    fun token hmem => ?_, hspoken ▸ h.spokenOnce⟩
  · obtain ⟨hold, heq⟩ := htokens c token hmem
    rw [heq, hissued]
    exact h.listed c token hold
  · obtain ⟨hold, heq⟩ := hhand k token own hk
    obtain ⟨hmem, hnone⟩ := h.hand k token own hold
    rw [heq, hissued]
    exact ⟨hmem, fun c hc => hnone c (htokens c token hc).1⟩
  · obtain ⟨hissue, hnone, hheld⟩ := h.spoken token (hspoken ▸ hmem)
    exact ⟨hissued ▸ hissue, fun c hc => hnone c (htokens c token hc).1,
      fun k own hk => hheld k own (hhand k token own hk).1⟩

/-- An open connection is given a free token. -/
theorem Places.list (h : s.Places) {token : Str} {c : Nat} {own : Option Json} (hfree : s.Free token)
    (hopen : (s.connections c).closing = none) (hissued : ⟨token, c, own⟩ ∈ s.issued) :
    (s.index token c own).Places := by
  have hnone : (s.connections c).ownRounds.get token = none := h.own c token hopen (hfree.tokens c)
  have hget : ∀ t, ((s.connections c).hold token own).ownRounds.get t =
      if t = token then own else (s.connections c).ownRounds.get t := by
    intro t
    cases own with
    | none =>
      by_cases ht : t = token
      · rw [if_pos ht, ht]
        exact hnone
      · rw [if_neg ht]
        rfl
    | some v =>
      simp only [CallConnection.hold, Option.elim, Dict.get_set, beq_iff_eq]
  refine ⟨h.once, fun d t => ?_, fun d t => ?_, fun k t o hk => ⟨(h.hand k t o hk).1, fun d => ?_⟩, h.hands,
    fun t hmem => ⟨(h.spoken t hmem).1, fun d => ?_, (h.spoken t hmem).2.2⟩, h.spokenOnce⟩
  all_goals
    dsimp only [HttpEntry.index]
    by_cases hdc : d = c
  · subst hdc
    rw [updateConnection_self, hget]
    intro _ ht
    rw [CallConnection.hold, List.mem_insert_iff, not_or] at ht
    rw [if_neg ht.1]
    exact h.own d t hopen ht.2
  · rw [updateConnection_ne hdc]
    exact h.own d t
  · subst hdc
    rw [updateConnection_self, hget]
    intro ht
    rcases List.mem_insert_iff.1 ht with rfl | ht
    · rw [if_pos rfl]
      exact hissued
    · have hne : t ≠ token := fun heq => hfree.tokens d (heq ▸ ht)
      rw [if_neg hne]
      exact h.listed d t ht
  · rw [updateConnection_ne hdc]
    exact h.listed d t
  · subst hdc
    rw [updateConnection_self]
    intro ht
    rcases List.mem_insert_iff.1 ht with rfl | ht
    · exact hfree.hand k o hk
    · exact (h.hand k t o hk).2 d ht
  · rw [updateConnection_ne hdc]
    exact (h.hand k t o hk).2 d
  · subst hdc
    rw [updateConnection_self]
    intro ht
    rcases List.mem_insert_iff.1 ht with rfl | ht
    · exact hfree.spoken hmem
    · exact (h.spoken t hmem).2.1 d ht
  · rw [updateConnection_ne hdc]
    exact (h.spoken t hmem).2.1 d

/-- A new serving has a free token in hand. -/
theorem Places.take (h : s.Places) {token : Str} {own : Option Json} {x : Serving} (hfree : s.Free token)
    (hx : x.InHand token own)
    (hissued : ⟨token, x.connection, own⟩ ∈ s.issued) : (s.serve x).Places := by
  have hnew : ∀ k t o, ((s.serve x).servings k).InHand t o →
      k = s.servingCount ∧ t = token ∧ o = own ∨ k ≠ s.servingCount ∧ (s.servings k).InHand t o := by
    intro k t o hk
    by_cases hcount : k = s.servingCount
    · subst hcount
      rw [serve_self] at hk
      have hpurpose : x.purpose = .retry t o := hk.1
      obtain ⟨rfl, rfl⟩ := Purpose.retry.inj (hpurpose.symm.trans hx.1)
      exact .inl ⟨rfl, rfl, rfl⟩
    · rw [serve_ne hcount] at hk
      exact .inr ⟨hcount, hk⟩
  refine ⟨h.once, h.own, h.listed, fun k t o hk => ?_, fun k k' t o o' hk hk' => ?_,
    fun t hmem => ⟨(h.spoken t hmem).1, (h.spoken t hmem).2.1, fun k o hk => ?_⟩, h.spokenOnce⟩
  · obtain ⟨rfl, rfl, rfl⟩ | ⟨hcount, hk⟩ := hnew k t o hk
    · rw [serve_self]
      exact ⟨hissued, hfree.tokens⟩
    · rw [serve_ne hcount]
      exact h.hand k t o hk
  · obtain ⟨rfl, rfl, rfl⟩ | ⟨-, hk⟩ := hnew k t o hk
    · obtain ⟨rfl, -, -⟩ | ⟨-, hk'⟩ := hnew k' t o' hk'
      · rfl
      · exact absurd hk' (hfree.hand k' o')
    · obtain ⟨rfl, rfl, -⟩ | ⟨-, hk'⟩ := hnew k' t o' hk'
      · exact absurd hk (hfree.hand k o)
      · exact h.hands k k' t o o' hk hk'
  · obtain ⟨-, rfl, -⟩ | ⟨-, hk⟩ := hnew k t o hk
    · exact hfree.spoken hmem
    · exact (h.spoken t hmem).2.2 k o hk

/-- The retry of a free token is written. -/
theorem Places.speak (h : s.Places) {token : Str} {l : Letter} (hfree : s.Free token) (htoken : l.origin.token = some token)
    (hissued : ∃ i ∈ s.issued, i.token = token) : ({ s with log := s.log ++ [l] } : HttpEntry W).Places := by
  have hspoken : ({ s with log := s.log ++ [l] } : HttpEntry W).spoken = s.spoken ++ [token] := by
    simp [HttpEntry.spoken, htoken]
  refine ⟨h.once, h.own, h.listed, h.hand, h.hands, fun t hmem => ?_, ?_⟩
  · rw [hspoken] at hmem
    rcases List.mem_append.1 hmem with hmem | hmem
    · exact h.spoken t hmem
    · obtain rfl := List.mem_singleton.1 hmem
      exact ⟨hissued, hfree.tokens, hfree.hand⟩
  · rw [hspoken]
    exact List.nodup_append_comm.1 (List.nodup_cons.2 ⟨hfree.spoken, h.spokenOnce⟩)

/-- A round goes out under a fresh token. -/
theorem Places.issue (h : s.Places) {i : Issue} (hfresh : ∀ j ∈ s.issued, j.token ≠ i.token) :
    ({ s with issued := s.issued ++ [i] } : HttpEntry W).Places ∧ s.Free i.token := by
  refine ⟨⟨?_, h.own, fun c t ht => List.mem_append_left _ (h.listed c t ht),
    fun k t o hk => ⟨List.mem_append_left _ (h.hand k t o hk).1, (h.hand k t o hk).2⟩, h.hands,
    fun t hmem => ⟨?_, (h.spoken t hmem).2⟩, h.spokenOnce⟩, ?_⟩
  · rw [List.map_append, List.map_singleton]
    refine List.nodup_append_comm.1 (List.nodup_cons.2 ⟨fun hmem => ?_, h.once⟩)
    obtain ⟨j, hj, heq⟩ := List.mem_map.1 hmem
    exact hfresh j hj heq
  · obtain ⟨j, hj, heq⟩ := (h.spoken t hmem).1
    exact ⟨j, List.mem_append_left _ hj, heq⟩
  · refine ⟨fun c ht => hfresh _ (h.listed c _ ht) rfl, fun k o hk => hfresh _ (h.hand k _ o hk).1 rfl, fun hmem => ?_⟩
    obtain ⟨j, hj, heq⟩ := (h.spoken _ hmem).1
    exact hfresh j hj heq

/-- A token whose connection was closed, that may be retried, that is being retried, that was, or that was lost. -/
def Whereabouts (s : HttpEntry W) (i : Issue) : Prop :=
  (s.connections i.connection).closing ≠ none ∨ i.token ∈ (s.connections i.connection).tokens ∨
    (∃ k, (s.servings k).InHand i.token i.own) ∨ i.token ∈ s.spoken ∨ i.token ∈ s.lost

/-- A retry that waits for its answer was written. -/
def Answering (s : HttpEntry W) : Prop :=
  ∀ k id token own, (s.servings k).stage = .responding id → (s.servings k).purpose = .retry token own → token ∈ s.spoken

/-- What holds of an entry. -/
structure Kept (C : HttpConfig) (s : HttpEntry W) : Prop where
  registry : s.Registry C
  written : s.Written
  places : s.Places
  answering : s.Answering
  whereabouts : ∀ i ∈ s.issued, s.Whereabouts i

theorem Whereabouts.later {i : Issue} (h : s.Whereabouts i)
    (hclosing : (s.connections i.connection).closing ≠ none → (s'.connections i.connection).closing ≠ none)
    (htokens : i.token ∈ (s.connections i.connection).tokens → s'.Whereabouts i)
    (hhand : ∀ k, (s.servings k).InHand i.token i.own → s'.Whereabouts i) (hspoken : s.spoken ⊆ s'.spoken)
    (hlost : s.lost ⊆ s'.lost) : s'.Whereabouts i := by
  obtain hclosed | hmem | ⟨k, hk⟩ | hmem | hmem := h
  · exact .inl (hclosing hclosed)
  · exact htokens hmem
  · exact hhand k hk
  · exact .inr (.inr (.inr (.inl (hspoken hmem))))
  · exact .inr (.inr (.inr (.inr (hlost hmem))))

/-! ## What a connection does -/

/-- Nothing changes that the rounds are about. -/
theorem Kept.of_same (h : s.Kept C) (hregistry : s'.Registry C)
    (hsame : ∀ c, (s.connections c).Same (s'.connections c)) (hcount : s'.connectionCount = s.connectionCount)
    (hservings : s'.servings = s.servings) (hservingCount : s'.servingCount = s.servingCount) (hlog : s'.log = s.log)
    (hissued : s'.issued = s.issued) (hlost : s.lost ⊆ s'.lost) : s'.Kept C := by
  have hspoken : s'.spoken = s.spoken := by rw [spoken, hlog, spoken]
  refine ⟨hregistry, ?_, ?_, ?_, fun i hi => ?_⟩
  · refine h.written.later ⟨hcount.ge, hservingCount.ge,
      fun c _ => ⟨(hsame c).sessionId, (hsame c).principal, (hsame c).opener⟩, fun k _ => ?_, ?_⟩ ?_ ?_ ?_ ?_
    · rw [hservings]
      exact ⟨rfl, rfl, rfl⟩
    · rw [hissued]
      exact List.Subset.refl _
    · rw [hissued]
      exact fun i hi => .inl hi
    · rw [hservings, hservingCount]
      exact h.written.idle
    · rw [hservings]
      exact fun k hk => .inl hk
    · rw [hlog]
      exact fun l hl => .inl hl
  · refine h.places.letGo (fun c token hmem => ?_) (fun c token => ?_) ?_ hspoken hissued
    · rw [(hsame c).tokens] at hmem
      exact ⟨hmem, by rw [(hsame c).ownRounds]⟩
    · rw [(hsame c).closing, (hsame c).tokens, (hsame c).ownRounds]
      exact h.places.own c token
    · rw [hservings]
      exact fun k token own hk => ⟨hk, rfl⟩
  · rw [Answering, hservings, hspoken]
    exact h.answering
  · rw [hissued] at hi
    refine (h.whereabouts i hi).later ?_ (fun hmem => .inr (.inl ?_)) (fun k hk => .inr (.inr (.inl ⟨k, ?_⟩)))
      (hspoken ▸ List.Subset.refl _) hlost
    · rw [(hsame _).closing]
      exact id
    · rwa [(hsame _).tokens]
    · rwa [hservings]

theorem Kept.updateConnection (h : s.Kept C) {c : Nat} {f : CallConnection W → CallConnection W}
    (hsame : (s.connections c).Same (f (s.connections c))) (hcounted : (f (s.connections c)).Counted) :
    (s.updateConnection c f).Kept C :=
  h.of_same (h.registry.updateConnection hsame hcounted) (same_updateConnection hsame) rfl rfl rfl rfl rfl
    (List.Subset.refl _)

theorem Kept.leave (h : s.Kept C) (c : Nat) (id : Int) : (s.leave c id).Kept C :=
  h.updateConnection (CallConnection.same_leave id) ((h.registry.counted c).leave id)

theorem Kept.use (h : s.Kept C) (c : Nat) : (s.use c).Kept C := by
  obtain ⟨sessions, heq, -, -⟩ := use_eq c s
  refine h.of_same (h.registry.use c) ?_ ?_ ?_ ?_ ?_ ?_ ?_ <;> rw [heq]
  · exact fun _ => .refl
  · exact List.Subset.refl _

theorem Kept.close (h : s.Kept C) {why : Why} {c : Nat}
    (hwhy : (s.connections c).closing = none →
      (why = .room → (s.connections c).running = false ∧ (s.connections c).undelivered = false) ∧
        (why = .idle → (s.connections c).running = false)) : (s.close why c).Kept C := by
  have hregistry := h.registry.close hwhy
  obtain ⟨-, heq⟩ | ⟨-, heq⟩ := close_cases why c s
  · rw [heq]
    exact h
  rw [heq] at hregistry ⊢
  obtain ⟨hshut, -⟩ := CallConnection.shut_kept why (h.registry.counted c)
  refine ⟨hregistry, ?_, ?_, h.answering, fun i hi => ?_⟩
  · refine h.written.later ⟨le_rfl, le_rfl, fun d _ => ?_, fun _ _ => ⟨rfl, rfl, rfl⟩, List.Subset.refl _⟩
      (fun i hi => .inl hi) h.written.idle (fun k hk => .inl hk) fun l hl => .inl hl
    by_cases hdc : d = c
    · subst hdc
      rw [updateConnection_self]
      exact ⟨hshut.sessionId, hshut.principal, hshut.opener⟩
    · rw [updateConnection_ne hdc]
      exact ⟨rfl, rfl, rfl⟩
  · refine h.places.letGo (fun d token => ?_) (fun d token => ?_) (fun k token own hk => ⟨hk, rfl⟩) rfl rfl
    all_goals
      by_cases hdc : d = c
    · subst hdc
      rw [updateConnection_self, hshut.tokens]
      exact fun hmem => by cases hmem
    · rw [updateConnection_ne hdc]
      exact fun hmem => ⟨hmem, rfl⟩
    · subst hdc
      rw [updateConnection_self, hshut.closing]
      exact fun hnone => by cases hnone
    · rw [updateConnection_ne hdc]
      exact h.places.own d token
  · by_cases hic : i.connection = c
    · refine .inl ?_
      rw [hic, updateConnection_self, hshut.closing]
      exact fun hnone => by cases hnone
    · refine (h.whereabouts i hi).later ?_ (fun hmem => .inr (.inl ?_)) (fun k hk => .inr (.inr (.inl ⟨k, hk⟩)))
        (List.Subset.refl _) (List.Subset.refl _)
      · rw [updateConnection_ne hic]
        exact id
      · rwa [updateConnection_ne hic]

/-- A call that ended is closed, whatever it does. -/
theorem Kept.close_ended (h : s.Kept C) (c : Nat) : (s.close .ended c).Kept C :=
  h.close fun _ => ⟨fun hwhy => (by cases hwhy), fun hwhy => (by cases hwhy)⟩

/-! ## What a serving does -/

theorem Kept.started (h : s.Kept C) {k : Nat} (hbusy : (s.servings k).stage ≠ .done) : k < s.servingCount :=
  Nat.lt_of_not_le fun hle => hbusy (h.written.idle k hle)

theorem Written.setStage (h : s.Written) {k : Nat} (hbusy : (s.servings k).stage ≠ .done) (stage : Stage) :
    (s.setStage k stage).Written := by
  refine h.later ⟨le_rfl, le_rfl, fun _ _ => ⟨rfl, rfl, rfl⟩, fun j _ => ?_, List.Subset.refl _⟩ (fun i hi => .inl hi)
    (fun j hj => ?_) (fun j hj => .inl ?_) fun l hl => .inl hl
  all_goals
    by_cases hjk : j = k
  · subst hjk
    rw [setStage_self]
    exact ⟨rfl, rfl, rfl⟩
  · rw [setStage_ne hjk]
    exact ⟨rfl, rfl, rfl⟩
  · subst hjk
    exact absurd (h.idle j hj) hbusy
  · rw [setStage_ne hjk]
    exact h.idle j hj
  · subst hjk
    exact hbusy
  · rwa [setStage_ne hjk] at hj

/-- Who has a retry in hand after a stage had it before. -/
theorem inHand_setStage {k : Nat} {stage : Stage} (hdown : stage.undecided = true → (s.servings k).stage.undecided = true)
    {j : Nat} {token : Str} {own : Option Json} (hj : ((s.setStage k stage).servings j).InHand token own) :
    (s.servings j).InHand token own ∧ ((s.setStage k stage).servings j).connection = (s.servings j).connection := by
  by_cases hjk : j = k
  · subst hjk
    rw [setStage_self] at hj ⊢
    exact ⟨⟨hj.1, hdown hj.2⟩, rfl⟩
  · rw [setStage_ne hjk] at hj ⊢
    exact ⟨hj, rfl⟩

theorem Places.setStage (h : s.Places) {k : Nat} {stage : Stage}
    (hdown : stage.undecided = true → (s.servings k).stage.undecided = true) : (s.setStage k stage).Places :=
  h.letGo (fun _ _ hmem => ⟨hmem, rfl⟩) h.own (fun _ _ _ hj => inHand_setStage hdown hj) rfl rfl

/-- A serving that has decided leaves its token free. -/
theorem Places.free_setStage (h : s.Places) {k : Nat} {stage : Stage} {token : Str} {own : Option Json}
    (hhand : (s.servings k).InHand token own) (hstage : stage.undecided = false) : (s.setStage k stage).Free token := by
  refine ⟨(h.hand k token own hhand).2, fun j o hj => ?_, fun hmem => (h.spoken token hmem).2.2 k own hhand⟩
  by_cases hjk : j = k
  · subst hjk
    rw [setStage_self] at hj
    exact absurd (hstage.symm.trans hj.2) Bool.false_ne_true
  · rw [setStage_ne hjk] at hj
    exact hjk (h.hands j k token o own hj hhand)

/-- A serving goes on: it keeps what it has in hand, or that is gone. -/
theorem Kept.setStage (h : s.Kept C) {k : Nat} {stage : Stage} (hbusy : (s.servings k).stage ≠ .done)
    (hdown : stage.undecided = true → (s.servings k).stage.undecided = true)
    (hwaits : ∀ id, stage = .responding id → (s.servings k).purpose = .opening)
    (hgone : ∀ token own, (s.servings k).InHand token own → stage.undecided = true ∨
      (s.connections (s.servings k).connection).closing ≠ none ∨ token ∈ s.lost) : (s.setStage k stage).Kept C := by
  refine ⟨h.registry.of_eq rfl rfl rfl rfl, h.written.setStage hbusy stage, h.places.setStage hdown,
    fun j id token own hstage hpurpose => ?_, fun i hi => ?_⟩
  · by_cases hjk : j = k
    · subst hjk
      rw [setStage_self] at hstage hpurpose
      cases (hwaits id hstage).symm.trans hpurpose
    · rw [setStage_ne hjk] at hstage hpurpose
      exact h.answering j id token own hstage hpurpose
  refine (h.whereabouts i hi).later id (fun hmem => .inr (.inl hmem)) (fun j hj => ?_) (List.Subset.refl _)
    (List.Subset.refl _)
  by_cases hjk : j = k
  · subst hjk
    obtain hstage | hclosed | hlost := hgone i.token i.own hj
    · refine .inr (.inr (.inl ⟨j, ?_⟩))
      rw [setStage_self]
      exact ⟨hj.1, hstage⟩
    · refine .inl ?_
      have hsame : i.connection = (s.servings j).connection :=
        congrArg Issue.connection (h.places.issue_unique hi (h.places.hand j _ _ hj).1 rfl)
      rw [← hsame] at hclosed
      exact hclosed
    · exact .inr (.inr (.inr (.inr hlost)))
  · refine .inr (.inr (.inl ⟨j, ?_⟩))
    rwa [setStage_ne hjk]

/-- What is written that is no retry. -/
theorem Kept.log (h : s.Kept C) {l : Letter} (htoken : l.origin.token = none) (hlt : l.connection < s.connectionCount)
    (hposted : ∀ k, l.origin.serving = some k → s.Posted l k) :
    ({ s with log := s.log ++ [l] } : HttpEntry W).Kept C := by
  have hspoken : ({ s with log := s.log ++ [l] } : HttpEntry W).spoken = s.spoken := by
    simp [HttpEntry.spoken, htoken]
  have hlater : s.Later { s with log := s.log ++ [l] } :=
    ⟨le_rfl, le_rfl, fun _ _ => ⟨rfl, rfl, rfl⟩, fun _ _ => ⟨rfl, rfl, rfl⟩, List.Subset.refl _⟩
  refine ⟨h.registry.of_eq rfl rfl rfl rfl, ?_, ?_, ?_, fun i hi => ?_⟩
  · refine h.written.later hlater (fun i hi => .inl hi) h.written.idle (fun k hk => .inl hk) fun m hm => ?_
    rcases List.mem_append.1 hm with hm | hm
    · exact .inl hm
    · obtain rfl := List.mem_singleton.1 hm
      exact .inr ⟨hlt, fun k hk => (hposted k hk).later hlater⟩
  · exact h.places.letGo (fun _ _ hmem => ⟨hmem, rfl⟩) h.places.own (fun _ _ _ hk => ⟨hk, rfl⟩) hspoken rfl
  · rw [Answering, hspoken]
    exact h.answering
  · exact (h.whereabouts i hi).later id (fun hmem => .inr (.inl hmem)) (fun k hk => .inr (.inr (.inl ⟨k, hk⟩)))
      (hspoken ▸ List.Subset.refl _) (List.Subset.refl _)

/-- The frame of a retry is written, and its serving waits for the answer. -/
theorem Kept.speak (h : s.Kept C) {k : Nat} {token : Str} {own : Option Json} (hhand : (s.servings k).InHand token own)
    {frame : Frame} (hstate : stateIn frame = some (own.getD (.str token))) (waiter : Int) :
    (({ s with log := s.log ++ [⟨(s.servings k).connection, .retry k token, frame⟩] } : HttpEntry W).setStage k
      (.responding waiter)).Kept C := by
  have hbusy : (s.servings k).stage ≠ .done := fun hdone => by
    rw [Serving.InHand, hdone] at hhand
    cases hhand.2
  have hk := h.started hbusy
  have hfree : (s.setStage k (.responding waiter)).Free token := h.places.free_setStage hhand rfl
  have hserves := h.written.servings k hbusy
  have hissued := (h.places.hand k token own hhand).1
  have hspoken : ∀ t, t ∈ s.spoken ∨ t = token →
      t ∈ (({ s with log := s.log ++ [⟨(s.servings k).connection, .retry k token, frame⟩] } : HttpEntry W).setStage k
        (.responding waiter)).spoken := by
    intro t ht
    simpa [HttpEntry.spoken, HttpEntry.setStage, Origin.token] using ht
  refine ⟨h.registry.of_eq rfl rfl rfl rfl, ?_, ?_, fun j id t o hstage hpurpose => ?_, fun i hi => ?_⟩
  · have hlater : (s.setStage k (.responding waiter)).Later
        (({ s with log := s.log ++ [⟨(s.servings k).connection, .retry k token, frame⟩] } : HttpEntry W).setStage k
          (.responding waiter)) :=
      ⟨le_rfl, le_rfl, fun _ _ => ⟨rfl, rfl, rfl⟩, fun _ _ => ⟨rfl, rfl, rfl⟩, List.Subset.refl _⟩
    have hwritten := h.written.setStage hbusy (.responding waiter)
    refine hwritten.later hlater (fun i hi => .inl hi) hwritten.idle (fun j hj => .inl hj) fun l hl => ?_
    rcases List.mem_append.1 hl with hl | hl
    · exact .inl hl
    obtain rfl := List.mem_singleton.1 hl
    refine .inr ⟨hserves.connection, fun j hj => ?_⟩
    obtain rfl := Option.some.inj hj
    have hstage : ((s.setStage k (.responding waiter)).servings k).stage ≠ .done := by
      rw [setStage_self]
      exact fun hdone => by cases hdone
    refine Posted.later (s := s.setStage k (.responding waiter))
      ⟨hk, hwritten.servings k hstage, ?_, fun hopening => (by cases hopening), fun t ht => ?_⟩ hlater
    · rw [setStage_self]
    · obtain ⟨-, rfl⟩ := Origin.retry.inj ht
      rw [setStage_self]
      exact ⟨own, hhand.1, hstate⟩
  · have hplaces : (s.setStage k (.responding waiter)).Places :=
      h.places.setStage (fun hundecided => (by cases hundecided))
    exact hplaces.speak (l := ⟨(s.servings k).connection, .retry k token, frame⟩) hfree rfl ⟨_, hissued, rfl⟩
  · by_cases hjk : j = k
    · subst hjk
      rw [setStage_self] at hpurpose
      obtain ⟨heq, -⟩ := Purpose.retry.inj (hpurpose.symm.trans hhand.1)
      exact hspoken t (.inr heq)
    · rw [setStage_ne hjk] at hstage hpurpose
      exact hspoken t (.inl (h.answering j id t o hstage hpurpose))
  · refine (h.whereabouts i hi).later id (fun hmem => .inr (.inl hmem)) (fun j hj => ?_) (fun t ht => hspoken t (.inl ht))
      (List.Subset.refl _)
    by_cases hjk : j = k
    · subst hjk
      obtain ⟨heq, -⟩ := Purpose.retry.inj (hj.1.symm.trans hhand.1)
      exact .inr (.inr (.inr (.inl (hspoken _ (.inr heq)))))
    · refine .inr (.inr (.inl ⟨j, ?_⟩))
      rwa [setStage_ne hjk]

/-! ## What happens to a round -/

theorem later_index (token : Str) (c : Nat) (own : Option Json) (s : HttpEntry W) : s.Later (s.index token c own) := by
  refine ⟨le_rfl, le_rfl, fun d _ => ?_, fun _ _ => ⟨rfl, rfl, rfl⟩, List.Subset.refl _⟩
  dsimp only [HttpEntry.index]
  by_cases hdc : d = c
  · subst hdc
    rw [updateConnection_self]
    exact ⟨rfl, rfl, rfl⟩
  · rw [updateConnection_ne hdc]
    exact ⟨rfl, rfl, rfl⟩

theorem index_tokens (token : Str) (c : Nat) (own : Option Json) (s : HttpEntry W) :
    token ∈ ((s.index token c own).connections c).tokens ∧ ∀ d, ∀ t ∈ (s.connections d).tokens,
      t ∈ ((s.index token c own).connections d).tokens := by
  dsimp only [HttpEntry.index]
  refine ⟨?_, fun d t ht => ?_⟩
  · rw [updateConnection_self]
    exact List.mem_insert_self
  · by_cases hdc : d = c
    · subst hdc
      rw [updateConnection_self]
      exact List.mem_insert_of_mem ht
    · rwa [updateConnection_ne hdc]

theorem index_closing (token : Str) (c : Nat) (own : Option Json) (s : HttpEntry W) (d : Nat) :
    ((s.index token c own).connections d).closing = (s.connections d).closing := by
  dsimp only [HttpEntry.index]
  by_cases hdc : d = c
  · subst hdc
    rw [updateConnection_self]
    rfl
  · rw [updateConnection_ne hdc]

/-- A free token of a round is put into its connection, and so is accounted for. -/
theorem Kept.index (hregistry : s.Registry C) (hwritten : s.Written) (hplaces : s.Places)
    (hanswering : s.Answering) {token : Str} {c : Nat}
    {own : Option Json} (hfree : s.Free token) (hopen : (s.connections c).closing = none)
    (hissued : ⟨token, c, own⟩ ∈ s.issued)
    (hwhereabouts : ∀ i ∈ s.issued, i = ⟨token, c, own⟩ ∨ s.Whereabouts i) : (s.index token c own).Kept C := by
  obtain ⟨hin, htokens⟩ := index_tokens token c own s
  refine ⟨hregistry.index_hold own hopen hfree.tokens,
    hwritten.later (later_index token c own s) (fun i hi => .inl hi) hwritten.idle (fun k hk => .inl hk)
      fun l hl => .inl hl, hplaces.list hfree hopen hissued, hanswering, fun i hi => ?_⟩
  obtain rfl | hi := hwhereabouts i hi
  · exact .inr (.inl hin)
  · refine hi.later ?_ (fun hmem => .inr (.inl (htokens _ _ hmem))) (fun k hk => .inr (.inr (.inl ⟨k, hk⟩)))
      (List.Subset.refl _) (List.Subset.refl _)
    rw [index_closing]
    exact id

/-- A round of the tool's goes out. -/
theorem Kept.issue (h : s.Kept C) {token : Str} {c : Nat} {own : Option Json} (hlt : c < s.connectionCount)
    (hopen : (s.connections c).closing = none) (hfresh : ∀ j ∈ s.issued, j.token ≠ token) :
    ({ s.index token c own with issued := s.issued ++ [⟨token, c, own⟩] } : HttpEntry W).Kept C := by
  obtain ⟨hplaces, hfree⟩ := h.places.issue (i := ⟨token, c, own⟩) hfresh
  have hmem : ⟨token, c, own⟩ ∈ s.issued ++ [⟨token, c, own⟩] := List.mem_append_right _ (List.mem_singleton_self _)
  refine Kept.index (s := { s with issued := s.issued ++ [⟨token, c, own⟩] }) (h.registry.of_eq rfl rfl rfl rfl) ?_
    hplaces h.answering ⟨hfree.tokens, hfree.hand, hfree.spoken⟩ hopen hmem fun i hi => ?_
  · refine h.written.later ⟨le_rfl, le_rfl, fun _ _ => ⟨rfl, rfl, rfl⟩, fun _ _ => ⟨rfl, rfl, rfl⟩,
      List.subset_append_left _ _⟩ (fun i hi => ?_) h.written.idle (fun k hk => .inl hk) fun l hl => .inl hl
    rcases List.mem_append.1 hi with hi | hi
    · exact .inl hi
    · obtain rfl := List.mem_singleton.1 hi
      exact .inr hlt
  · rcases List.mem_append.1 hi with hi | hi
    · exact .inr (h.whereabouts i hi)
    · exact .inl (List.mem_singleton.1 hi)

theorem Answering.setStage_done (h : s.Answering) (k : Nat) : (s.setStage k .done).Answering := by
  intro j id token own hstage hpurpose
  by_cases hjk : j = k
  · subst hjk
    rw [setStage_self] at hstage
    cases hstage
  · rw [setStage_ne hjk] at hstage hpurpose
    exact h j id token own hstage hpurpose

/-- A serving that could not write its request gives the token back. -/
theorem Kept.turnAway (h : s.Kept C) {k : Nat} (hundecided : (s.servings k).stage.undecided = true) :
    (s.turnAway k).Kept C := by
  have hbusy : (s.servings k).stage ≠ .done := fun hdone => by
    rw [hdone] at hundecided
    cases hundecided
  unfold HttpEntry.turnAway
  cases hpurpose : (s.servings k).purpose with
  | opening => exact h.setStage hbusy (fun hdone => (by cases hdone)) (fun _ _ => hpurpose) fun token own hhand =>
      (by rw [Serving.InHand, hpurpose] at hhand; cases hhand.1)
  | retry token own =>
    have hhand : (s.servings k).InHand token own := ⟨hpurpose, hundecided⟩
    have hissued := (h.places.hand k token own hhand).1
    dsimp only [restore]
    cases hclosing : (s.connections (s.servings k).connection).closing with
    | some x =>
      rw [CallConnection.closed, hclosing, Option.isSome_some, if_pos rfl]
      refine h.setStage hbusy (fun hdone => (by cases hdone)) (fun _ hdone => (by cases hdone))
        fun t o ht => .inr (.inl ?_)
      rw [hclosing]
      exact fun hnone => by cases hnone
    | none =>
      rw [CallConnection.closed, hclosing, Option.isSome_none, if_neg Bool.false_ne_true]
      refine Kept.index (s := s.setStage k .done) (h.registry.of_eq rfl rfl rfl rfl) (h.written.setStage hbusy .done)
        (h.places.setStage fun hdone => (by cases hdone)) (h.answering.setStage_done k) (h.places.free_setStage hhand rfl)
        hclosing hissued fun i hi => ?_
      by_cases hi' : i = ⟨token, (s.servings k).connection, own⟩
      · exact .inl hi'
      · refine .inr ((h.whereabouts i hi).later id (fun hmem => .inr (.inl hmem)) (fun j hj => ?_)
          (List.Subset.refl _) (List.Subset.refl _))
        by_cases hjk : j = k
        · subst hjk
          obtain ⟨htoken, -⟩ := Purpose.retry.inj (hj.1.symm.trans hpurpose)
          exact absurd (h.places.issue_unique hi hissued htoken) hi'
        · refine .inr (.inr (.inl ⟨j, ?_⟩))
          rwa [setStage_ne hjk]

/-! ## A serving starts -/

theorem later_serve (x : Serving) (s : HttpEntry W) : s.Later (s.serve x) := by
  refine ⟨le_rfl, Nat.le_succ _, fun _ _ => ⟨rfl, rfl, rfl⟩, fun k hk => ?_, List.Subset.refl _⟩
  rw [serve_ne (Nat.ne_of_lt hk)]
  exact ⟨rfl, rfl, rfl⟩

theorem serves_serve {x : Serving} (hlt : x.connection < s.connectionCount)
    (hopening : x.purpose = .opening →
      (s.connections x.connection).opener = s.servingCount ∧ Opens x.post (s.connections x.connection))
    (hretry : ∀ token own, x.purpose = .retry token own →
      ⟨token, x.connection, own⟩ ∈ s.issued ∧ OwnCaller x.post (s.connections x.connection) token own) :
    (s.serve x).Serves s.servingCount := by
  refine ⟨?_, ?_, ?_⟩ <;> rw [serve_self]
  · exact hlt
  · exact hopening
  · exact hretry

theorem Written.serve (h : s.Written) {x : Serving} (hx : x.stage ≠ .done → (s.serve x).Serves s.servingCount) :
    (s.serve x).Written := by
  refine h.later (later_serve x s) (fun i hi => .inl hi) (fun k hk => ?_) (fun k hk => ?_) fun l hl => .inl hl
  · have hlt : s.servingCount < k := hk
    rw [serve_ne (Nat.ne_of_gt hlt)]
    exact h.idle k (Nat.le_of_lt hlt)
  · by_cases hcount : k = s.servingCount
    · subst hcount
      rw [serve_self] at hk
      exact .inr (hx hk)
    · rw [serve_ne hcount] at hk
      exact .inl hk

theorem Answering.serve (h : s.Answering) {x : Serving} (hx : ∀ id, x.stage ≠ .responding id) :
    (s.serve x).Answering := by
  intro k id token own hstage hpurpose
  by_cases hcount : k = s.servingCount
  · subst hcount
    rw [serve_self] at hstage
    exact absurd hstage (hx id)
  · rw [serve_ne hcount] at hstage hpurpose
    exact h k id token own hstage hpurpose

/-- Who had a retry in hand before a serving starts has it. -/
theorem Written.inHand_serve (h : s.Written) (x : Serving) {k : Nat} {token : Str} {own : Option Json}
    (hk : (s.servings k).InHand token own) : ((s.serve x).servings k).InHand token own := by
  have hcount : k ≠ s.servingCount := fun hcount => by
    rw [Serving.InHand, h.idle k hcount.ge] at hk
    cases hk.2
  rwa [serve_ne hcount]

/-- A serving that has no retry in hand. -/
theorem Kept.serve (h : s.Kept C) {x : Serving} (hx : x.stage ≠ .done → (s.serve x).Serves s.servingCount)
    (hnone : ∀ token own, ¬x.InHand token own) (hwaits : ∀ id, x.stage ≠ .responding id) : (s.serve x).Kept C := by
  refine ⟨h.registry.of_eq rfl rfl rfl rfl, h.written.serve hx, ?_, h.answering.serve hwaits, fun i hi => ?_⟩
  · refine h.places.letGo (fun _ _ hmem => ⟨hmem, rfl⟩) h.places.own (fun k token own hk => ?_) rfl rfl
    by_cases hcount : k = s.servingCount
    · subst hcount
      rw [serve_self] at hk
      exact absurd hk (hnone token own)
    · rw [serve_ne hcount] at hk ⊢
      exact ⟨hk, rfl⟩
  · exact (h.whereabouts i hi).later id (fun hmem => .inr (.inl hmem))
      (fun k hk => .inr (.inr (.inl ⟨k, h.written.inHand_serve x hk⟩))) (List.Subset.refl _) (List.Subset.refl _)

theorem Kept.refuse (h : s.Kept C) (p : Post) : (s.refuse p).Kept C :=
  h.serve (fun hdone => absurd rfl hdone) (fun _ _ hhand => (by cases hhand.1)) fun _ hstage => by cases hstage

theorem undecided_firstStage (p : Post) (call : CallConnection W) : (firstStage p call).undecided = true := by
  unfold firstStage
  split <;> rfl

/-- The entry when a token was taken from its connection. -/
def consumed (token : Str) (c : Nat) (s : HttpEntry W) : HttpEntry W :=
  { s.updateConnection c (·.consume token) with tokens := s.tokens.pop token }

theorem consumed_self (token : Str) (c : Nat) (s : HttpEntry W) :
    (s.consumed token c).connections c = (s.connections c).consume token :=
  updateConnection_self c (·.consume token) s

theorem consumed_ne {c d : Nat} (hd : d ≠ c) (token : Str) (s : HttpEntry W) :
    (s.consumed token c).connections d = s.connections d :=
  updateConnection_ne hd (·.consume token) s

theorem mem_consume {call : CallConnection W} {token t : Str} :
    t ∈ (call.consume token).tokens ↔ t ∈ call.tokens ∧ t ≠ token := by
  simp [CallConnection.consume]

theorem later_consumed (token : Str) (c : Nat) (s : HttpEntry W) : s.Later (s.consumed token c) := by
  refine ⟨le_rfl, le_rfl, fun d _ => ?_, fun _ _ => ⟨rfl, rfl, rfl⟩, List.Subset.refl _⟩
  by_cases hdc : d = c
  · subst hdc
    rw [consumed_self]
    exact ⟨rfl, rfl, rfl⟩
  · rw [consumed_ne hdc]
    exact ⟨rfl, rfl, rfl⟩

theorem Places.consume (h : s.Places) {token : Str} {c : Nat} (hmem : token ∈ (s.connections c).tokens) :
    (s.consumed token c).Places ∧ (s.consumed token c).Free token := by
  refine ⟨h.letGo (fun d t => ?_) (fun d t => ?_) (fun _ _ _ hk => ⟨hk, rfl⟩) rfl rfl,
    fun d => ?_, fun k own hk => (h.hand k token own hk).2 c hmem, fun hspoken => (h.spoken token hspoken).2.1 c hmem⟩
  all_goals
    by_cases hdc : d = c
  · subst hdc
    rw [consumed_self, mem_consume]
    exact fun ht => ⟨ht.1, Dict.get_pop_ne _ ht.2⟩
  · rw [consumed_ne hdc]
    exact fun ht => ⟨ht, rfl⟩
  · subst hdc
    rw [consumed_self, mem_consume]
    intro hopen ht
    dsimp only [CallConnection.consume]
    by_cases htoken : t = token
    · rw [htoken, Dict.get_pop_self]
    · rw [Dict.get_pop_ne _ htoken]
      exact h.own d t hopen fun hlisted => ht ⟨hlisted, htoken⟩
  · rw [consumed_ne hdc]
    exact h.own d t
  · subst hdc
    rw [consumed_self, mem_consume]
    exact fun ht => ht.2 rfl
  · rw [consumed_ne hdc]
    exact fun ht => hdc (congrArg Issue.connection (h.issue_unique (h.listed d token ht) (h.listed c token hmem) rfl))

/-- A retry takes the token it presents in hand. -/
theorem Kept.take (h : s.Kept C) {x : Serving} {token : Str} (hget : s.tokens.get token = some x.connection)
    (hhand : x.InHand token ((s.connections x.connection).ownRounds.get token))
    (hcaller : OwnCaller x.post (s.connections x.connection) token
      ((s.connections x.connection).ownRounds.get token)) : ((s.consumed token x.connection).serve x).Kept C := by
  obtain ⟨hopen, hmem⟩ := (h.registry.index token x.connection).1 hget
  have hissued := h.places.listed x.connection token hmem
  have hlt : x.connection < s.connectionCount := h.written.issued _ hissued
  obtain ⟨hplaces, hfree⟩ := h.places.consume hmem
  have hlater := later_consumed token x.connection s
  have hwritten : (s.consumed token x.connection).Written :=
    h.written.later hlater (fun i hi => .inl hi) h.written.idle (fun k hk => .inl hk) fun l hl => .inl hl
  generalize (s.connections x.connection).ownRounds.get token = own at *
  refine ⟨(h.registry.consume hget).of_eq rfl rfl rfl rfl, hwritten.serve fun _ => serves_serve hlt ?_ ?_,
    hplaces.take hfree hhand hissued, Answering.serve (s := s.consumed token x.connection) h.answering fun id hstage => ?_,
    fun i hi => ?_⟩
  · exact fun hopening => by cases hopening.symm.trans hhand.1
  · intro t o hpurpose
    obtain ⟨rfl, rfl⟩ := Purpose.retry.inj (hpurpose.symm.trans hhand.1)
    obtain ⟨hsession, hprincipal, -⟩ := hlater.calls x.connection hlt
    exact ⟨hissued, hcaller.token, hcaller.principal.trans hprincipal.symm,
      fun hsome => (hcaller.session hsome).trans (congrArg some hsession.symm)⟩
  · rw [Serving.InHand, hstage] at hhand
    cases hhand.2
  · by_cases htoken : i.token = token
    · have heq : i = ⟨token, x.connection, own⟩ := h.places.issue_unique hi hissued htoken
      refine .inr (.inr (.inl ⟨s.servingCount, ?_⟩))
      rw [heq]
      exact (serve_self x (s.consumed token x.connection)).symm ▸ hhand
    · refine (h.whereabouts i hi).later (fun hclosed => ?_) (fun ht => .inr (.inl ?_)) (fun k hk => ?_)
        (List.Subset.refl _) (List.Subset.refl _)
      · change ((s.consumed token x.connection).connections i.connection).closing ≠ none
        by_cases hic : i.connection = x.connection
        · rw [hic] at hclosed
          exact absurd hopen hclosed
        · rwa [consumed_ne hic]
      · change i.token ∈ ((s.consumed token x.connection).connections i.connection).tokens
        by_cases hic : i.connection = x.connection
        · rw [hic] at ht ⊢
          rw [consumed_self, mem_consume]
          exact ⟨ht, htoken⟩
        · rwa [consumed_ne hic]
      · exact .inr (.inr (.inl ⟨k, hwritten.inHand_serve x hk⟩))

theorem Kept.serveRetry (h : s.Kept C) {p : Post} {token : Str} (htoken : p.requestState.bind reserved = some token) :
    (s.serveRetry p token).Kept C := by
  unfold HttpEntry.serveRetry
  cases hget : s.tokens.get token with
  | none => exact h.refuse p
  | some c =>
    dsimp only
    split
    · exact h.refuse p
    next hsession =>
    split
    · exact h.refuse p
    next hprincipal =>
    rw [bne_iff_ne, not_not] at hprincipal
    refine h.take (x := ⟨p, c, .retry token _, firstStage p (s.connections c)⟩) hget
      ⟨rfl, undecided_firstStage p _⟩ ⟨htoken, hprincipal, fun hown => ?_⟩
    rw [hown, Bool.true_and, bne_iff_ne, not_not] at hsession
    exact hsession

/-- A call is opened where there is room, and a serving for it starts. -/
theorem Kept.opened (h : s.Kept C) {p : Post} {name : Str} (hnone : s.sessions.get name = none)
    (hroom : s.sessions.items.length < C.maxHeldCalls) (hstate : p.requestState = none)
    (hname : bodySession p.params = some name) {call : CallConnection W}
    (hcall : call = { sessionId := name, principal := p.principal, opener := s.servingCount }) {stage : Stage}
    (hwaits : ∀ id, stage ≠ .responding id) : (HttpEntry.serve ⟨p, s.connectionCount, .opening, stage⟩ { s with
      connections := Function.update s.connections s.connectionCount call
      connectionCount := s.connectionCount + 1
      sessions := s.sessions.set name s.connectionCount }).Kept C := by
  have hne : ∀ d, d < s.connectionCount → Function.update s.connections s.connectionCount call d = s.connections d :=
    fun d hd => Function.update_of_ne (Nat.ne_of_lt hd) _ _
  refine Kept.serve ⟨h.registry.opened hnone hroom (by rw [hcall]) (by rw [hcall]) (by rw [hcall]) ?_, ?_, ?_,
    h.answering, fun i hi => ?_⟩ (fun _ => serves_serve (Nat.lt_succ_self _) (fun _ => ?_)
    fun _ _ hretry => (by cases hretry)) (fun _ _ hhand => (by cases hhand.1)) hwaits
  · rw [hcall]
    exact ⟨rfl, fun _ _ hget => by cases hget⟩
  · refine h.written.later ⟨Nat.le_succ _, le_rfl, fun d hd => ?_, fun _ _ => ⟨rfl, rfl, rfl⟩, List.Subset.refl _⟩
      (fun i hi => .inl hi) h.written.idle (fun k hk => .inl hk) fun l hl => .inl hl
    dsimp only
    rw [hne d hd]
    exact ⟨rfl, rfl, rfl⟩
  · refine h.places.letGo (fun d t => ?_) (fun d t => ?_) (fun _ _ _ hk => ⟨hk, rfl⟩) rfl rfl
    all_goals
      dsimp only
      by_cases hd : d = s.connectionCount
    · rw [hd, Function.update_self, hcall]
      exact fun ht => by cases ht
    · rw [Function.update_of_ne hd]
      exact fun ht => ⟨ht, rfl⟩
    · rw [hd, Function.update_self, hcall]
      exact fun _ _ => rfl
    · rw [Function.update_of_ne hd]
      exact h.places.own d t
  · have hi' := h.written.issued i hi
    refine (h.whereabouts i hi).later ?_ (fun ht => .inr (.inl ?_)) (fun k hk => .inr (.inr (.inl ⟨k, hk⟩)))
      (List.Subset.refl _) (List.Subset.refl _)
    · dsimp only
      rw [hne _ hi']
      exact id
    · dsimp only
      rwa [hne _ hi']
  · dsimp only
    rw [Function.update_self, hcall]
    exact ⟨rfl, hstate, rfl, hname⟩

theorem Kept.serveOpening (h : s.Kept C) {p : Post} {name : Str} (hstate : p.requestState = none)
    (hname : bodySession p.params = some name) : (s.serveOpening C p name).Kept C := by
  unfold HttpEntry.serveOpening
  split
  · exact h.refuse p
  next hheld =>
  have hnone : s.sessions.get name = none := by
    rw [Bool.or_eq_true, not_or] at hheld
    simpa using hheld.1
  cases hroom : s.makeRoom C with
  | none => exact h.refuse p
  | some r =>
    obtain ⟨hless, hcases⟩ := h.registry.makeRoom hroom
    have hkept : r.Kept C ∧ r.sessions.get name = none := by
      obtain rfl | ⟨c, hevictable, rfl⟩ := hcases
      · exact ⟨h, hnone⟩
      · rw [CallConnection.evictable, Bool.and_eq_true, Bool.not_eq_true', Bool.not_eq_true'] at hevictable
        exact ⟨h.close fun _ => ⟨fun _ => hevictable, fun hidle => (by cases hidle)⟩, close_sessions_none hnone .room c⟩
    refine hkept.1.opened hkept.2 hless hstate hname rfl fun id hstage => ?_
    have hundecided := undecided_firstStage p
      ({ sessionId := name, principal := p.principal, opener := r.servingCount } : CallConnection W)
    rw [hstage] at hundecided
    cases hundecided

theorem Kept.post (h : s.Kept C) (p : Post) : (s.post C p).Kept C := by
  unfold HttpEntry.post
  split
  · exact h.refuse p
  cases hstate : p.requestState with
  | none =>
    dsimp only
    cases hname : bodySession p.params with
    | none => exact h.refuse p
    | some name => exact h.serveOpening hstate hname
  | some state =>
    dsimp only
    cases htoken : reserved state with
    | none => exact h.refuse p
    | some token => exact h.serveRetry (by rw [hstate]; exact htoken)

end HttpEntry

end AuditableMcp
