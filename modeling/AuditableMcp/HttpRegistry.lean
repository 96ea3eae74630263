import AuditableMcp.HttpEntry
/-!
# The registry of an HTTP entry

What a connection, the index of tokens and the held sessions say of each other (`Registry`), and that each operation
keeps it. A connection is open while its `closing` is `none`. That a token is put into the index for one connection only
is the business of the rounds (`HttpRounds`); here it is an assumption of `Registry.index_hold`.
-/
namespace AuditableMcp

open JsonValue

/-! ## One connection -/

namespace CallConnection

variable {W : World} {call x y z : CallConnection W}

/-- What a request that comes or goes leaves as it is. -/
structure Same (x y : CallConnection W) : Prop where
  sessionId : y.sessionId = x.sessionId
  principal : y.principal = x.principal
  opener : y.opener = x.opener
  tokens : y.tokens = x.tokens
  ownRounds : y.ownRounds = x.ownRounds
  closing : y.closing = x.closing

theorem Same.refl : Same x x := ⟨rfl, rfl, rfl, rfl, rfl, rfl⟩

theorem Same.trans (hxy : Same x y) (hyz : Same y z) : Same x z :=
  ⟨hyz.sessionId.trans hxy.sessionId, hyz.principal.trans hxy.principal, hyz.opener.trans hxy.opener,
    hyz.tokens.trans hxy.tokens, hyz.ownRounds.trans hxy.ownRounds, hyz.closing.trans hxy.closing⟩

/-- The count of its requests in flight, and the ids they wait under. -/
structure Counted (call : CallConnection W) : Prop where
  inFlight : call.inFlight = call.waiters.items.length
  ids : ∀ id w, call.waiters.get id = some w → id ≤ call.nextId

theorem same_enter (requestId : RequestId) : Same call (call.enter requestId) := ⟨rfl, rfl, rfl, rfl, rfl, rfl⟩

theorem Counted.enter (h : Counted call) (requestId : RequestId) : Counted (call.enter requestId) := by
  have hnew : call.waiters.get (call.nextId + 1 : Nat) = none := by
    cases hget : call.waiters.get (call.nextId + 1 : Nat) with
    | none => rfl
    | some w =>
      have hle := h.ids _ w hget
      omega
  refine ⟨?_, fun id w hget => ?_⟩
  · change call.inFlight + 1 = ((call.waiters.set (call.nextId + 1 : Nat) ⟨requestId, none⟩).items.length : Int)
    rw [Dict.length_set_of_none hnew, h.inFlight, Nat.cast_add, Nat.cast_one]
  · simp only [CallConnection.enter, Dict.get_set] at hget ⊢
    split at hget
    · next heq => exact (eq_of_beq heq).le
    · have hle := h.ids id w hget
      omega

theorem same_leave (id : Int) : Same call (call.leave id) := by
  unfold leave
  split <;> exact ⟨rfl, rfl, rfl, rfl, rfl, rfl⟩

theorem Counted.leave (h : Counted call) (id : Int) : Counted (call.leave id) := by
  unfold CallConnection.leave
  split
  · next w hget =>
    have hlength := Dict.length_pop_of_get hget
    have hcount := h.inFlight
    refine ⟨?_, fun i w hi => h.ids i w (Dict.get_of_pop hi)⟩
    dsimp only
    omega
  · exact h

theorem same_answer (id : Int) (frame : Frame) : Same call (call.answer id frame) := by
  unfold answer
  split <;> exact ⟨rfl, rfl, rfl, rfl, rfl, rfl⟩

theorem Counted.answer (h : Counted call) (id : Int) (frame : Frame) : Counted (call.answer id frame) := by
  unfold CallConnection.answer
  split
  · next w hget =>
    refine ⟨?_, fun i v hi => ?_⟩
    · simp only [Dict.length_set_of_get hget]
      exact h.inFlight
    · simp only [Dict.get_set] at hi
      split at hi
      · next heq => exact h.ids i w ((eq_of_beq heq).symm ▸ hget)
      · exact h.ids i v hi
  · exact h

theorem answerAll_kept (frame : Frame) (h : Counted call) :
    Same call (call.answerAll frame) ∧ Counted (call.answerAll frame) := by
  have hall : ∀ (items : List (Int × Waiter)) (x : CallConnection W), Counted x →
      Same x (items.foldl (fun call e => call.answer e.1 frame) x) ∧
        Counted (items.foldl (fun call e => call.answer e.1 frame) x) := by
    intro items
    induction items with
    | nil => exact fun x hx => ⟨.refl, hx⟩
    | cons e items ih =>
      intro x hx
      obtain ⟨hsame, hcounted⟩ := ih (x.answer e.1 frame) (hx.answer e.1 frame)
      exact ⟨(same_answer e.1 frame).trans hsame, hcounted⟩
  exact hall call.waiters.items call h

/-- A close takes its tokens, and leaves a mark. -/
theorem shut_kept (why : Why) (h : Counted call) :
    Same { call with tokens := [], closing := some ⟨why, call.running, call.undelivered⟩ } (call.shut why) ∧
      Counted (call.shut why) :=
  answerAll_kept _ ⟨h.inFlight, h.ids⟩

end CallConnection

/-! ## The registry -/

namespace HttpEntry

variable {W : World} {C : HttpConfig} {s s' : HttpEntry W}

/-- The token index, the held sessions and the connections agree, and a call was closed for a reason. -/
structure Registry (C : HttpConfig) (s : HttpEntry W) : Prop where
  index : ∀ token c, s.tokens.get token = some c ↔
    (s.connections c).closing = none ∧ token ∈ (s.connections c).tokens
  bare : ∀ c, (s.connections c).closing ≠ none → (s.connections c).tokens = []
  sessions : ∀ name c, s.sessions.get name = some c ↔
    (s.connections c).closing = none ∧ (s.connections c).sessionId = name
  few : s.sessions.items.length ≤ C.maxHeldCalls
  why : ∀ c x, (s.connections c).closing = some x →
    (x.why = .room → x.running = false ∧ x.undelivered = false) ∧ (x.why = .idle → x.running = false)
  counted : ∀ c, (s.connections c).Counted
  unopened : ∀ c, s.connectionCount ≤ c → (s.connections c).closing ≠ none

theorem registry_start : (start : HttpEntry W).Registry C where
  index _ _ := ⟨fun h => (by cases h), fun h => (by cases h.1)⟩
  bare _ _ := rfl
  sessions _ _ := ⟨fun h => (by cases h), fun h => (by cases h.1)⟩
  few := Nat.zero_le _
  why c x h := by
    obtain rfl := Option.some.inj h
    exact ⟨fun _ => ⟨rfl, rfl⟩, fun _ => rfl⟩
  counted _ := ⟨rfl, fun _ _ h => by cases h⟩
  unopened _ _ h := by cases h

/-- What else happens to an entry is nothing to its registry. -/
theorem Registry.of_eq (h : s.Registry C) (hconnections : s'.connections = s.connections)
    (hcount : s'.connectionCount = s.connectionCount) (hsessions : s'.sessions = s.sessions)
    (htokens : s'.tokens = s.tokens) : s'.Registry C := by
  refine ⟨?_, ?_, ?_, ?_, ?_, ?_, ?_⟩
  · rw [hconnections, htokens]
    exact h.index
  · rw [hconnections]
    exact h.bare
  · rw [hconnections, hsessions]
    exact h.sessions
  · rw [hsessions]
    exact h.few
  · rw [hconnections]
    exact h.why
  · rw [hconnections]
    exact h.counted
  · rw [hconnections, hcount]
    exact h.unopened

/-! ### Requests -/

@[simp] theorem updateConnection_self (c : Nat) (f : CallConnection W → CallConnection W) (s : HttpEntry W) :
    (s.updateConnection c f).connections c = f (s.connections c) :=
  Function.update_self c _ s.connections

theorem updateConnection_ne {c d : Nat} (hd : d ≠ c) (f : CallConnection W → CallConnection W) (s : HttpEntry W) :
    (s.updateConnection c f).connections d = s.connections d :=
  Function.update_of_ne hd _ s.connections

/-- What holds of a connection that changes and of every other holds of all. -/
theorem forall_updateConnection {c : Nat} {f : CallConnection W → CallConnection W}
    {p : Nat → CallConnection W → Prop} (hself : p c (f (s.connections c)))
    (hother : ∀ d, d ≠ c → p d (s.connections d)) (d : Nat) : p d ((s.updateConnection c f).connections d) := by
  by_cases hd : d = c
  · subst hd
    rw [updateConnection_self]
    exact hself
  · rw [updateConnection_ne hd]
    exact hother d hd

theorem same_updateConnection {c : Nat} {f : CallConnection W → CallConnection W}
    (hsame : (s.connections c).Same (f (s.connections c))) (d : Nat) :
    (s.connections d).Same ((s.updateConnection c f).connections d) :=
  forall_updateConnection (p := fun d call => (s.connections d).Same call) hsame (fun _ _ => .refl) d

/-- A request comes to a connection or leaves it. -/
theorem Registry.updateConnection (h : s.Registry C) {c : Nat} {f : CallConnection W → CallConnection W}
    (hsame : (s.connections c).Same (f (s.connections c))) (hcounted : (f (s.connections c)).Counted) :
    (s.updateConnection c f).Registry C := by
  have hclosing := fun d => (same_updateConnection hsame d).closing
  have htokens := fun d => (same_updateConnection hsame d).tokens
  refine ⟨fun token d => ?_, fun d => ?_, fun name d => ?_, h.few, fun d => ?_,
    forall_updateConnection (p := fun _ call => call.Counted) hcounted fun e _ => h.counted e, fun d => ?_⟩
  · rw [hclosing, htokens]
    exact h.index token d
  · rw [hclosing, htokens]
    exact h.bare d
  · rw [hclosing, (same_updateConnection hsame d).sessionId]
    exact h.sessions name d
  · rw [hclosing]
    exact h.why d
  · rw [hclosing]
    exact h.unopened d

/-- The use of a connection is an order of the sessions. -/
theorem use_eq (c : Nat) (s : HttpEntry W) : ∃ sessions : Dict Str Nat, s.use c = { s with sessions } ∧
    sessions.get = s.sessions.get ∧ sessions.items.length = s.sessions.items.length := by
  unfold use
  dsimp only
  split
  · next hget =>
    refine ⟨_, rfl, ?_, ?_⟩
    · ext1 name
      rw [Dict.get_set, Dict.get_pop]
      split
      · next heq => rw [eq_of_beq heq, hget]
      · rfl
    · rw [Dict.length_set_of_none (Dict.get_pop_self _ _), Dict.length_pop_of_get hget]
  · exact ⟨s.sessions, rfl, rfl, rfl⟩

theorem Registry.use (h : s.Registry C) (c : Nat) : (s.use c).Registry C := by
  obtain ⟨sessions, heq, hget, hlength⟩ := use_eq c s
  rw [heq]
  exact ⟨h.index, h.bare, fun name d => (congrFun hget name).symm ▸ h.sessions name d, hlength.trans_le h.few, h.why,
    h.counted, h.unopened⟩

/-! ### Closes -/

theorem close_cases (why : Why) (c : Nat) (s : HttpEntry W) :
    (s.connections c).closing ≠ none ∧ s.close why c = s ∨
      (s.connections c).closing = none ∧ s.close why c = { s.updateConnection c (·.shut why) with
        sessions := if s.sessions.get (s.connections c).sessionId = some c then
          s.sessions.pop (s.connections c).sessionId else s.sessions
        tokens := s.tokens.popAll (s.connections c).tokens } := by
  unfold HttpEntry.close
  cases hclosing : (s.connections c).closing with
  | none => exact .inr ⟨rfl, if_neg (by simp [CallConnection.closed, hclosing])⟩
  | some x => exact .inl ⟨fun h => (by cases h), if_pos (by simp [CallConnection.closed, hclosing])⟩

theorem Registry.close (h : s.Registry C) {why : Why} {c : Nat}
    (hwhy : (s.connections c).closing = none →
      (why = .room → (s.connections c).running = false ∧ (s.connections c).undelivered = false) ∧
        (why = .idle → (s.connections c).running = false)) : (s.close why c).Registry C := by
  obtain ⟨-, heq⟩ | ⟨hopen, heq⟩ := close_cases why c s
  · rw [heq]
    exact h
  have hheld : s.sessions.get (s.connections c).sessionId = some c := (h.sessions _ c).2 ⟨hopen, rfl⟩
  obtain ⟨hshut, hcounted⟩ := CallConnection.shut_kept why (h.counted c)
  rw [heq, if_pos hheld]
  refine ⟨fun token d => ?_, fun d => ?_, fun name d => ?_, ?_, fun d x hx => ?_,
    fun d => forall_updateConnection (p := fun _ call => call.Counted) (f := (·.shut why)) hcounted
      (fun e _ => h.counted e) d, fun d => ?_⟩
  · dsimp only
    by_cases htoken : token ∈ (s.connections c).tokens
    · rw [Dict.get_popAll_of_mem htoken]
      refine ⟨fun hnone => (by cases hnone), fun hboth => ?_⟩
      obtain ⟨hd, hmem⟩ := hboth
      by_cases hdc : d = c
      · rw [hdc, updateConnection_self, hshut.closing] at hd
        cases hd
      · rw [updateConnection_ne hdc] at hd hmem
        have hone := ((h.index token c).2 ⟨hopen, htoken⟩).symm.trans ((h.index token d).2 ⟨hd, hmem⟩)
        exact absurd (Option.some.inj hone).symm hdc
    · rw [Dict.get_popAll_of_notMem htoken, h.index]
      by_cases hdc : d = c
      · subst hdc
        rw [updateConnection_self, hshut.closing, hshut.tokens]
        exact ⟨fun hmem => absurd hmem.2 htoken, fun hmem => (by cases hmem.1)⟩
      · rw [updateConnection_ne hdc]
  · exact forall_updateConnection (p := fun _ call => call.closing ≠ none → call.tokens = []) (f := (·.shut why))
      (fun _ => hshut.tokens) (fun e _ => h.bare e) d
  · dsimp only
    by_cases hdc : d = c
    · subst hdc
      rw [updateConnection_self, hshut.closing]
      refine ⟨fun hget => ?_, fun hmem => (by cases hmem.1)⟩
      rw [Dict.get_pop] at hget
      split at hget
      · cases hget
      · next hne => exact absurd ((h.sessions name d).1 hget).2.symm (by simpa using hne)
    · rw [updateConnection_ne hdc, ← h.sessions name d, Dict.get_pop]
      split
      · next heq =>
        obtain rfl := eq_of_beq heq
        refine ⟨fun hnone => (by cases hnone), fun hget => ?_⟩
        exact absurd (Option.some.inj (hget.symm.trans hheld)) hdc
      · rfl
  · exact (Dict.length_pop_le _ _).trans h.few
  · by_cases hdc : d = c
    · subst hdc
      rw [updateConnection_self, hshut.closing] at hx
      obtain rfl := Option.some.inj hx
      exact hwhy hopen
    · rw [updateConnection_ne hdc] at hx
      exact h.why d x hx
  · refine forall_updateConnection (p := fun e call => s.connectionCount ≤ e → call.closing ≠ none) (f := (·.shut why))
      (fun _ hnone => ?_) (fun e _ => h.unopened e) d
    rw [hshut.closing] at hnone
    cases hnone

/-! ### Rounds, and new calls -/

/-- The rounds of an open connection change, and the index with them. -/
theorem Registry.retoken (h : s.Registry C) {c : Nat} {f : CallConnection W → CallConnection W} {tokens : Dict Str Nat}
    (hopen : (s.connections c).closing = none) (hclosing : (f (s.connections c)).closing = none)
    (hsession : (f (s.connections c)).sessionId = (s.connections c).sessionId) (hcounted : (f (s.connections c)).Counted)
    (hself : ∀ t, tokens.get t = some c ↔ t ∈ (f (s.connections c)).tokens)
    (hother : ∀ t d, d ≠ c → (tokens.get t = some d ↔ s.tokens.get t = some d)) :
    ({ s.updateConnection c f with tokens := tokens } : HttpEntry W).Registry C := by
  refine ⟨fun t d => ?_, fun d => ?_, fun name d => ?_, h.few, fun d => ?_,
    fun d => forall_updateConnection (p := fun _ call => call.Counted) (f := f) hcounted (fun e _ => h.counted e) d,
    fun d hd => ?_⟩
  all_goals
    dsimp only
    by_cases hdc : d = c
  · subst hdc
    rw [updateConnection_self, hself]
    exact (and_iff_right hclosing).symm
  · rw [updateConnection_ne hdc, hother t d hdc]
    exact h.index t d
  · subst hdc
    rw [updateConnection_self]
    exact fun hclosed => absurd hclosing hclosed
  · rw [updateConnection_ne hdc]
    exact h.bare d
  · subst hdc
    have hheld := h.sessions name d
    rw [hopen] at hheld
    rwa [updateConnection_self, hclosing, hsession]
  · rw [updateConnection_ne hdc]
    exact h.sessions name d
  · subst hdc
    rw [updateConnection_self, hclosing]
    exact fun x hx => by cases hx
  · rw [updateConnection_ne hdc]
    exact h.why d
  · subst hdc
    exact absurd hopen (h.unopened d hd)
  · rw [updateConnection_ne hdc]
    exact h.unopened d hd

/-- A token that no connection has comes to an open one. -/
theorem Registry.index_hold (h : s.Registry C) {token : Str} {c : Nat} (own : Option Json)
    (hopen : (s.connections c).closing = none) (hnew : ∀ d, token ∉ (s.connections d).tokens) :
    (s.index token c own).Registry C := by
  refine h.retoken (f := (·.hold token own)) hopen hopen rfl ⟨(h.counted c).1, (h.counted c).2⟩ (fun t => ?_)
    fun t d hd => ?_
  · rw [Dict.get_set]
    by_cases ht : t = token
    · simp [ht, CallConnection.hold]
    · simp [ht, CallConnection.hold, h.index, hopen]
  · rw [Dict.get_set]
    by_cases ht : t = token
    · subst ht
      simp [h.index, hnew d, Ne.symm hd]
    · simp [ht]

/-- A retry takes its token from the index and its connection. -/
theorem Registry.consume (h : s.Registry C) {token : Str} {c : Nat} (hget : s.tokens.get token = some c) :
    ({ s.updateConnection c (·.consume token) with tokens := s.tokens.pop token } : HttpEntry W).Registry C := by
  obtain ⟨hopen, -⟩ := (h.index token c).1 hget
  refine h.retoken (f := (·.consume token)) hopen hopen rfl ⟨(h.counted c).1, (h.counted c).2⟩ (fun t => ?_)
    fun t d hd => ?_
  · rw [Dict.get_pop]
    by_cases ht : t = token <;> simp [ht, CallConnection.consume, h.index, hopen]
  · rw [Dict.get_pop]
    by_cases ht : t = token
    · subst ht
      simp [hget, Ne.symm hd]
    · simp [ht]

/-- A call is opened for a session that no call has. -/
theorem Registry.opened (h : s.Registry C) {name : Str} {call : CallConnection W}
    (hnone : s.sessions.get name = none) (hroom : s.sessions.items.length < C.maxHeldCalls)
    (hname : call.sessionId = name) (hclosing : call.closing = none) (htokens : call.tokens = [])
    (hcounted : call.Counted) :
    ({ s with
      connections := Function.update s.connections s.connectionCount call
      connectionCount := s.connectionCount + 1
      sessions := s.sessions.set name s.connectionCount } : HttpEntry W).Registry C := by
  have hunopened := h.unopened s.connectionCount le_rfl
  have hlength : (s.sessions.set name s.connectionCount).items.length ≤ C.maxHeldCalls := by
    rw [Dict.length_set_of_none hnone]
    exact hroom
  refine ⟨fun t d => ?_, fun d => ?_, fun n d => ?_, hlength, fun d => ?_, fun d => ?_, fun d hd => ?_⟩
  all_goals
    dsimp only at *
    by_cases hdc : d = s.connectionCount
  · subst hdc
    rw [Function.update_self, htokens, h.index]
    exact ⟨fun hget => absurd hget.1 hunopened, fun hmem => (by cases hmem.2)⟩
  · rw [Function.update_of_ne hdc]
    exact h.index t d
  · subst hdc
    rw [Function.update_self]
    exact fun _ => htokens
  · rw [Function.update_of_ne hdc]
    exact h.bare d
  · subst hdc
    rw [Function.update_self, Dict.get_set, hclosing, hname]
    by_cases hn : n = name
    · simp [hn]
    · simp only [beq_iff_eq, hn, if_false, true_and, h.sessions, hunopened, false_and, false_iff]
      exact Ne.symm hn
  · rw [Function.update_of_ne hdc, Dict.get_set]
    by_cases hn : n = name
    · subst hn
      rw [← h.sessions, hnone]
      simp [Ne.symm hdc]
    · simp [hn, h.sessions]
  · subst hdc
    rw [Function.update_self, hclosing]
    exact fun x hx => by cases hx
  · rw [Function.update_of_ne hdc]
    exact h.why d
  · subst hdc
    rw [Function.update_self]
    exact hcounted
  · rw [Function.update_of_ne hdc]
    exact h.counted d
  · omega
  · rw [Function.update_of_ne hdc]
    exact h.unopened d (by omega)

/-- The room for a call: there is some, or a call that may go goes. -/
theorem Registry.makeRoom (h : s.Registry C) (hroom : s.makeRoom C = some s') :
    s'.sessions.items.length < C.maxHeldCalls ∧
      (s' = s ∨ ∃ c, (s.connections c).evictable = true ∧ s' = s.close .room c) := by
  unfold HttpEntry.makeRoom at hroom
  split at hroom
  · next hlt =>
    obtain rfl := Option.some.inj hroom
    exact ⟨hlt, .inl rfl⟩
  · obtain ⟨c, hfind, rfl⟩ := Option.map_eq_some_iff.1 hroom
    have hevictable : (s.connections c).evictable = true :=
      List.find?_some (p := fun c => (s.connections c).evictable) hfind
    obtain ⟨name, hget⟩ := Dict.exists_get_of_mem_values (List.mem_of_find?_eq_some hfind)
    obtain ⟨hopen, rfl⟩ := (h.sessions name c).1 hget
    obtain ⟨hclosed, -⟩ | ⟨-, heq⟩ := close_cases .room c s
    · exact absurd hopen hclosed
    have hlength := Dict.length_pop_of_get hget
    have hfew := h.few
    refine ⟨?_, .inr ⟨c, hevictable, rfl⟩⟩
    rw [heq, if_pos hget]
    dsimp only
    omega

/-- A session that is not held is not held after a close. -/
theorem close_sessions_none {name : Str} (hnone : s.sessions.get name = none) (why : Why) (c : Nat) :
    (s.close why c).sessions.get name = none := by
  obtain ⟨-, heq⟩ | ⟨-, heq⟩ := close_cases why c s
  · rw [heq, hnone]
  · rw [heq]
    dsimp only
    split
    · rw [Dict.get_pop, hnone, ite_self]
    · exact hnone

end HttpEntry

end AuditableMcp
